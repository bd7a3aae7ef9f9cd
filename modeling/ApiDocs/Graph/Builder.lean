import ApiDocs.Graph.Basic

/-!
# Building symbol graphs

A builder is a graph that is still growing. It starts with the library, whose only symbol is the
interface `Array`, and hands out the position of every part that is added. Adding never moves what
is there, so a position stays good for the rest of the work.

The operations are total: an update of a part that is not there changes nothing, and the name or
display of such a part reads as empty. Whether the parts that a call works on are there is asked
beforehand, by `BuilderCall.needs`.

## Main definitions

* `GraphBuilder`: a growing graph.
* `GraphBuilder.start`: the library alone.
* `GraphBuilder.addSymbol`, `GraphBuilder.declare`, …: growth and updates.
* `GraphBuilder.union`, `GraphBuilder.arrayOf`, …: types together with their displays.
* `BuilderCall`: a call as a value.
* `BuilderCall.run?`: a call on a builder, refused when something it works on is missing.
-/

namespace ApiDocs

/-- A growing graph, and the keyword types made so far by their display. -/
structure GraphBuilder where
  graph : SymbolGraph := {}
  intrinsics : Table String TypeId := .empty
  deriving DecidableEq, Repr, Inhabited

namespace GraphBuilder

variable (b : GraphBuilder)

/-! ## Reading -/

/-- The name of a symbol. -/
def nameOf (id : SymbolId) : String := ((b.graph.symbol? id).map (·.name)).getD ""

/-- The flags of a symbol. -/
def flagsOf (id : SymbolId) : SymbolFlags := ((b.graph.symbol? id).map (·.flags)).getD .none

/-- The exports of a symbol. -/
def exportsOf (id : SymbolId) : Table String SymbolId :=
  ((b.graph.symbol? id).map (·.exports)).getD .empty

/-- The members of a symbol. -/
def membersOf (id : SymbolId) : Table String SymbolId :=
  ((b.graph.symbol? id).map (·.members)).getD .empty

/-- The documentation of a symbol. -/
def docOf (id : SymbolId) : String := ((b.graph.symbol? id).map (·.doc)).getD ""

/-- The type of a symbol. -/
def typeOf (id : SymbolId) : Option TypeId := (b.graph.symbol? id).bind (·.typeId)

/-- The target of an alias. -/
def aliasOf (id : SymbolId) : Option SymbolId := (b.graph.symbol? id).bind (·.aliasOf)

/-! ## Growth -/

/-- Change a symbol. -/
def modifySymbol (id : SymbolId) (f : Symbol → Symbol) : GraphBuilder :=
  { b with graph := { b.graph with symbols := b.graph.symbols.modify id.index f } }

/-- Change a type. -/
def modifyType (id : TypeId) (f : TypeNode → TypeNode) : GraphBuilder :=
  { b with graph := { b.graph with types := b.graph.types.modify id.index f } }

/-- Add a symbol without declarations. -/
def addSymbol (name : String) (flags : SymbolFlags) : SymbolId × GraphBuilder :=
  (⟨b.graph.symbols.size⟩,
    { b with graph := { b.graph with symbols := b.graph.symbols.push { name, flags } } })

/-- Add a type. -/
def addType (t : TypeNode) : TypeId × GraphBuilder :=
  (⟨b.graph.types.size⟩, { b with graph := { b.graph with types := b.graph.types.push t } })

/-- Add a signature. -/
def addSignature (s : Signature) : SignatureId × GraphBuilder :=
  (⟨b.graph.signatures.size⟩,
    { b with graph := { b.graph with signatures := b.graph.signatures.push s } })

/-- Add a file without exports. -/
def addScript (path : String) : GraphBuilder :=
  { b with graph := { b.graph with files := b.graph.files ++ [{ path }] } }

/-- Add a module; its symbol is named for the quoted path. -/
def addModule (path : String) : SymbolId × GraphBuilder :=
  let (symbol, b) := b.addSymbol (String.ofList ('"' :: (path.toList ++ ['"'])))
    SymbolFlags.moduleBit
  (symbol, { b with graph :=
    { b.graph with files := b.graph.files ++ [{ path, symbol := some symbol }] } })

/-! ## Updates -/

/-- Attach a declaration. The first that declares a value is the value declaration. -/
def attach (d : Declaration) (s : Symbol) : Symbol :=
  { s with
    declarations := s.declarations ++ [d]
    valueDeclaration :=
      if d.kind.isValue && s.valueDeclaration.isNone then some s.declarations.length
      else s.valueDeclaration }

/-- Declare a symbol; the position of the new declaration comes back. -/
def declare (id : SymbolId) (d : Declaration) : Nat × GraphBuilder :=
  (((b.graph.symbol? id).map (·.declarations.length)).getD 0, b.modifySymbol id (attach d))

/-- Export `symbol` from `container` under a name. -/
def exportAs (container : SymbolId) (name : String) (symbol : SymbolId) : GraphBuilder :=
  b.modifySymbol container fun s => { s with exports := s.exports.insert name symbol }

/-- Make `symbol` a member of `owner`. -/
def member (owner : SymbolId) (name : String) (symbol : SymbolId) : GraphBuilder :=
  b.modifySymbol owner fun s => { s with members := s.members.insert name symbol }

/-- Give a symbol its type. -/
def setType (id : SymbolId) (t : TypeId) : GraphBuilder :=
  b.modifySymbol id fun s => { s with typeId := some t }

/-- Give a symbol its documentation. -/
def setDoc (id : SymbolId) (doc : String) : GraphBuilder :=
  b.modifySymbol id fun s => { s with doc }

/-- Add flags to a symbol. -/
def addFlags (id : SymbolId) (flags : SymbolFlags) : GraphBuilder :=
  b.modifySymbol id fun s => { s with flags := s.flags ∪ flags }

/-- Change a declaration of a symbol. -/
def modifyDeclaration (id : SymbolId) (index : Nat) (f : Declaration → Declaration) : GraphBuilder :=
  b.modifySymbol id fun s => { s with declarations := s.declarations.modify index f }

/-- Make a symbol an alias. -/
def aliasTo (id target : SymbolId) : GraphBuilder :=
  b.modifySymbol id fun s =>
    { s with flags := s.flags ∪ SymbolFlags.aliasBit, aliasOf := some target }

/-- Set where emitted files go. -/
def setLayout (layout : OutputLayout) : GraphBuilder :=
  { b with graph := { b.graph with layout := some layout } }

/-- Add a call signature to a type. -/
def addCallSignature (id : TypeId) (s : SignatureId) : GraphBuilder :=
  b.modifyType id fun t => { t with callSignatures := t.callSignatures ++ [s] }

/-- Add a construct signature to a type. -/
def addConstructSignature (id : TypeId) (s : SignatureId) : GraphBuilder :=
  b.modifyType id fun t => { t with constructSignatures := t.constructSignatures ++ [s] }

/-! ## The start -/

/-- The symbol of the library interface `Array`. -/
def arraySymbol : SymbolId := ⟨0⟩

/-- An interface that the library declares. -/
def libraryDeclaration : Declaration :=
  { kind := .interfaceDecl, pos := ⟨SymbolGraph.libraryPath, 1, 1⟩ }

/-- The library alone. -/
def start : GraphBuilder :=
  let b : GraphBuilder := { graph := { files := [{ path := SymbolGraph.libraryPath }] } }
  let (array, b) := b.addSymbol "Array" SymbolFlags.interfaceBit
  (b.declare array libraryDeclaration).2

/-! ## Types -/

/-- The display of a type as part of a larger one: unions and intersections in parentheses. -/
def nestedDisplay (id : TypeId) : String :=
  match b.graph.type? id with
  | some t => if t.isCompound then "(" ++ t.display ++ ")" else t.display
  | none => ""

/-- The display of a type. -/
def displayOf (id : TypeId) : String := ((b.graph.type? id).map (·.display)).getD ""

/-- The displays of types between commas. -/
def listDisplay (ids : List TypeId) : String := ", ".intercalate (ids.map b.displayOf)

/-- An object type. -/
def objectNode (kind : ObjectFlags) (display : String) : TypeNode :=
  { flags := TypeFlags.objectBit, objectFlags := kind, display }

/-- The one type of a keyword; it is made on first use. -/
def intrinsic (flags : TypeFlags) (display : String) : TypeId × GraphBuilder :=
  match b.intrinsics.get? display with
  | some id => (id, b)
  | none =>
    let (id, b) := b.addType { flags, display }
    (id, { b with intrinsics := b.intrinsics.insert display id })

/-- The type `any`. -/
def any : TypeId × GraphBuilder := b.intrinsic TypeFlags.anyBit "any"

/-- The type `number`. -/
def number : TypeId × GraphBuilder := b.intrinsic TypeFlags.numberBit "number"

/-- The type of one literal. -/
def literal (value : Literal) : TypeId × GraphBuilder :=
  let flags :=
    match value with
    | .number _ => TypeFlags.numberLiteralBit
    | .text _ => TypeFlags.stringLiteralBit
  b.addType { flags, literal := some value, display := value.display }

/-- The type of one enum member with a known value. -/
def enumLiteral (member : SymbolId) (value : Literal) : TypeId × GraphBuilder :=
  let primitive :=
    match value with
    | .number _ => TypeFlags.numberLiteralBit
    | .text _ => TypeFlags.stringLiteralBit
  b.addType
    { flags := TypeFlags.enumLiteralBit ∪ primitive
      symbol := some member
      literal := some value
      display := b.nameOf member }

/-- The type of an enum: the union of its member types. -/
def enumType (symbol : SymbolId) (members : List TypeId) : TypeId × GraphBuilder :=
  b.addType
    { flags := TypeFlags.enumLiteralBit ∪ TypeFlags.unionBit ∪ TypeFlags.enumBit
      symbol := some symbol
      constituents := members
      display := b.nameOf symbol }

/-- The instance type of a class or interface, or with arguments an instantiation of it. -/
def reference (symbol : SymbolId) (arguments : List TypeId) : TypeId × GraphBuilder :=
  let name := b.nameOf symbol
  if arguments.isEmpty then
    let kind :=
      if (b.flagsOf symbol).has SymbolFlags.classBit then ObjectFlags.classBit
      else ObjectFlags.interfaceBit
    b.addType { objectNode kind name with symbol := some symbol }
  else
    b.addType
      { objectNode ObjectFlags.referenceBit (name ++ "<" ++ b.listDisplay arguments ++ ">") with
        symbol := some symbol
        targetName := some name
        typeArguments := arguments }

/-- The array type of an element type: an instantiation of the library's `Array`. -/
def arrayOf (element : TypeId) : TypeId × GraphBuilder :=
  b.addType
    { objectNode ObjectFlags.referenceBit (b.nestedDisplay element ++ "[]") with
      symbol := some arraySymbol
      targetName := some "Array"
      typeArguments := [element] }

/-- A union. -/
def union (members : List TypeId) : TypeId × GraphBuilder :=
  b.addType
    { flags := TypeFlags.unionBit
      constituents := members
      display := " | ".intercalate (members.map b.nestedDisplay) }

/-- An intersection. -/
def intersection (members : List TypeId) : TypeId × GraphBuilder :=
  b.addType
    { flags := TypeFlags.intersectionBit
      constituents := members
      display := " & ".intercalate (members.map b.nestedDisplay) }

/-- A tuple. -/
def tuple (elements : List TypeId) : TypeId × GraphBuilder :=
  b.addType
    { objectNode (ObjectFlags.referenceBit ∪ ObjectFlags.tupleBit)
        ("[" ++ b.listDisplay elements ++ "]") with
      typeArguments := elements }

/-- A type parameter. -/
def typeParameter (symbol : SymbolId) : TypeId × GraphBuilder :=
  b.addType
    { flags := TypeFlags.typeParameterBit, symbol := some symbol, display := b.nameOf symbol }

/-- The type `this` inside a class or interface. -/
def thisType (owner : SymbolId) : TypeId × GraphBuilder :=
  b.addType
    { flags := TypeFlags.typeParameterBit
      symbol := some owner
      isThisType := true
      display := "this" }

/-- An object type that is known by its display only. -/
def anonymous (display : String) : TypeId × GraphBuilder :=
  b.addType (objectNode ObjectFlags.anonymousBit display)

/-- The type of a function with its overloads. -/
def functionType (display : String) (signatures : List SignatureId) : TypeId × GraphBuilder :=
  b.addType
    { objectNode ObjectFlags.anonymousBit display with callSignatures := signatures }

/-- The type of a class as a value, with its constructors. -/
def constructorType (symbol : SymbolId) (signatures : List SignatureId) :
    TypeId × GraphBuilder :=
  b.addType
    { objectNode ObjectFlags.anonymousBit ("typeof " ++ b.nameOf symbol) with
      symbol := some symbol
      constructSignatures := signatures }

end GraphBuilder

/-! ## Calls as values -/

/-- A call of the builder. -/
inductive BuilderCall where
  | arraySymbol
  | addModule (path : String)
  | addScript (path : String)
  | addSymbol (name : String) (flags : SymbolFlags)
  | declare (symbol : SymbolId) (declaration : Declaration)
  | exportAs (container : SymbolId) (name : String) (symbol : SymbolId)
  | member (owner : SymbolId) (name : String) (symbol : SymbolId)
  | setType (symbol : SymbolId) (type : TypeId)
  | setDoc (symbol : SymbolId) (doc : String)
  | aliasTo (symbol target : SymbolId)
  | setLayout (layout : OutputLayout)
  | addType (type : TypeNode)
  | intrinsic (flags : TypeFlags) (display : String)
  | literal (value : Literal)
  | enumLiteral (member : SymbolId) (value : Literal)
  | enumType (symbol : SymbolId) (members : List TypeId)
  | reference (symbol : SymbolId) (arguments : List TypeId)
  | arrayOf (element : TypeId)
  | union (members : List TypeId)
  | intersection (members : List TypeId)
  | tuple (elements : List TypeId)
  | typeParameter (symbol : SymbolId)
  | thisType (owner : SymbolId)
  | anonymous (display : String)
  | functionType (display : String) (signatures : List SignatureId)
  | constructorType (symbol : SymbolId) (signatures : List SignatureId)
  | addSignature (signature : Signature)
  | addCallSignature (type : TypeId) (signature : SignatureId)
  | addConstructSignature (type : TypeId) (signature : SignatureId)
  deriving Repr

/-- What a call hands back. -/
inductive BuilderReply where
  | nothing
  | symbol (id : SymbolId)
  | type (id : TypeId)
  | signature (id : SignatureId)
  | declaration (index : Nat)
  deriving DecidableEq, Repr

namespace BuilderCall

/-- The symbols and the types whose contents a call reads or changes. What it only stores is not
among them. -/
def needs : BuilderCall → List SymbolId × List TypeId
  | declare s _ | exportAs s _ _ | member s _ _ | setType s _ | setDoc s _ | aliasTo s _ => ([s], [])
  | enumLiteral s _ | enumType s _ | typeParameter s | constructorType s _ => ([s], [])
  | reference s arguments => ([s], arguments)
  | arrayOf t | addCallSignature t _ | addConstructSignature t _ => ([], [t])
  | union ts | intersection ts | tuple ts => ([], ts)
  | _ => ([], [])

/-- Is everything there that the call works on? -/
def ready (g : SymbolGraph) (call : BuilderCall) : Bool :=
  call.needs.1.all (fun s => (g.symbol? s).isSome) && call.needs.2.all (fun t => (g.type? t).isSome)

/-- The call on a builder in which everything it works on is there. -/
def run (b : GraphBuilder) : BuilderCall → BuilderReply × GraphBuilder
  | arraySymbol => (.symbol GraphBuilder.arraySymbol, b)
  | addModule path => let (s, b) := b.addModule path; (.symbol s, b)
  | addScript path => (.nothing, b.addScript path)
  | addSymbol name flags => let (s, b) := b.addSymbol name flags; (.symbol s, b)
  | declare s d => let (i, b) := b.declare s d; (.declaration i, b)
  | exportAs c name s => (.nothing, b.exportAs c name s)
  | member o name s => (.nothing, b.member o name s)
  | setType s t => (.nothing, b.setType s t)
  | setDoc s doc => (.nothing, b.setDoc s doc)
  | aliasTo s target => (.nothing, b.aliasTo s target)
  | setLayout layout => (.nothing, b.setLayout layout)
  | addType t => let (t, b) := b.addType t; (.type t, b)
  | intrinsic flags display => let (t, b) := b.intrinsic flags display; (.type t, b)
  | literal value => let (t, b) := b.literal value; (.type t, b)
  | enumLiteral s value => let (t, b) := b.enumLiteral s value; (.type t, b)
  | enumType s ts => let (t, b) := b.enumType s ts; (.type t, b)
  | reference s ts => let (t, b) := b.reference s ts; (.type t, b)
  | arrayOf t => let (t, b) := b.arrayOf t; (.type t, b)
  | union ts => let (t, b) := b.union ts; (.type t, b)
  | intersection ts => let (t, b) := b.intersection ts; (.type t, b)
  | tuple ts => let (t, b) := b.tuple ts; (.type t, b)
  | typeParameter s => let (t, b) := b.typeParameter s; (.type t, b)
  | thisType s => let (t, b) := b.thisType s; (.type t, b)
  | anonymous display => let (t, b) := b.anonymous display; (.type t, b)
  | functionType display ss => let (t, b) := b.functionType display ss; (.type t, b)
  | constructorType s ss => let (t, b) := b.constructorType s ss; (.type t, b)
  | addSignature s => let (s, b) := b.addSignature s; (.signature s, b)
  | addCallSignature t s => (.nothing, b.addCallSignature t s)
  | addConstructSignature t s => (.nothing, b.addConstructSignature t s)

/-- The call on a builder; nothing when something it works on is missing. -/
def run? (b : GraphBuilder) (call : BuilderCall) : Option (BuilderReply × GraphBuilder) :=
  if call.ready b.graph then some (call.run b) else none

end BuilderCall

end ApiDocs
