import ApiDocs.Graph.Validity
import ApiDocs.Json.Reader
import ApiDocs.Json.Record
import ApiDocs.Json.Writer

/-!
# Symbol graphs as JSON

A graph is stored as an object with its files, symbols, types and signatures; what is empty or
absent is left out, but for the flags. Reading a graph from a text also checks that it is
self-contained.

## Main definitions

* `SymbolGraph.toJson`, `SymbolGraph.ofJson?`: the stored form.
* `SymbolGraph.toText`: the indented text.
* `SymbolGraph.ofText`: a valid graph from a text, or why there is none.
-/

namespace ApiDocs

open Json (field fieldOpt fieldIf fieldList ofFields record? list?)
open Number (twoTo)

/-- Positions and line numbers are 32-bit words. -/
def word32? : Json → Option Nat := Json.below? (twoTo 32)

/-- Positions of declarations are 64-bit words. -/
def word64? : Json → Option Nat := Json.below? (twoTo 64)

namespace SymbolId

def toJson (id : SymbolId) : Json := .nat id.index
def ofJson? (j : Json) : Option SymbolId := (word32? j).map SymbolId.mk

end SymbolId

namespace TypeId

def toJson (id : TypeId) : Json := .nat id.index
def ofJson? (j : Json) : Option TypeId := (word32? j).map TypeId.mk

end TypeId

namespace SignatureId

def toJson (id : SignatureId) : Json := .nat id.index
def ofJson? (j : Json) : Option SignatureId := (word32? j).map SignatureId.mk

end SignatureId

namespace FlagSet

def toJson (f : FlagSet names) : Json := .str f.text
def ofJson? (j : Json) : Option (FlagSet names) := j.str?.bind ofText?

end FlagSet

namespace SourcePos

def toJson (p : SourcePos) : Json :=
  ofFields
    [field "sourcePath" (.str p.sourcePath), field "firstLine" (.nat p.firstLine),
      field "lastLine" (.nat p.lastLine)]

def ofJson? (j : Json) : Option SourcePos := do
  let r ← record? [("sourcePath", .required), ("firstLine", .required), ("lastLine", .required)] j
  return {
    sourcePath := ← r.required "sourcePath" Json.str?
    firstLine := ← r.required "firstLine" word32?
    lastLine := ← r.required "lastLine" word32? }

end SourcePos

namespace Literal

def toJson : Literal → Json
  | .number x => .real x
  | .text s => .str s

def ofJson? : Json → Option Literal
  | .str s => some (.text s)
  | j => j.number?.map .number

end Literal

namespace DeclarationKind

/-- The name of a kind in stored graphs. -/
def code : DeclarationKind → String
  | functionDecl => "function"
  | classDecl => "class"
  | interfaceDecl => "interface"
  | enumDecl => "enum"
  | enumMember => "enum_member"
  | variableDecl => "variable"
  | parameter => "parameter"
  | property => "property"
  | method => "method"
  | constructorDecl => "constructor"
  | accessor => "accessor"
  | indexSignature => "index_signature"
  | typeAlias => "type_alias"
  | typeParameter => "type_parameter"
  | moduleDecl => "module"
  | importDecl => "import"
  | exportSpecifier => "export_specifier"
  | other => "other"

/-- All kinds. -/
def all : List DeclarationKind :=
  [functionDecl, classDecl, interfaceDecl, enumDecl, enumMember, variableDecl, parameter, property,
    method, constructorDecl, accessor, indexSignature, typeAlias, typeParameter, moduleDecl,
    importDecl, exportSpecifier, other]

/-- The kind of a name. -/
def ofCode? (name : String) : Option DeclarationKind := all.find? (·.code == name)

def toJson (k : DeclarationKind) : Json := .str k.code
def ofJson? (j : Json) : Option DeclarationKind := (Json.choiceName? j).bind ofCode?

end DeclarationKind

namespace IndexTypes

def toJson (i : IndexTypes) : Json :=
  ofFields
    [field "key" (Json.ofOption TypeId.toJson i.key),
      field "value" (Json.ofOption TypeId.toJson i.value)]

def ofJson? (j : Json) : Option IndexTypes := do
  let r ← record? [("key", .optional), ("value", .optional)] j
  return {
    key := ← r.optional "key" TypeId.ofJson?
    value := ← r.optional "value" TypeId.ofJson? }

end IndexTypes

namespace Declaration

def toJson (d : Declaration) : Json :=
  ofFields
    [field "kind" d.kind.toJson, field "pos" d.pos.toJson, field "modifiers" d.modifiers.toJson,
      fieldList "heritage" SymbolId.toJson d.heritage,
      fieldOpt "index" IndexTypes.toJson d.index]

def ofJson? (j : Json) : Option Declaration := do
  let r ← record?
    [("kind", .required), ("pos", .required), ("modifiers", .defaulted), ("heritage", .defaulted),
      ("index", .defaulted)] j
  return {
    kind := ← r.required "kind" DeclarationKind.ofJson?
    pos := ← r.required "pos" SourcePos.ofJson?
    modifiers := ← r.defaulted "modifiers" FlagSet.ofJson? .none
    heritage := ← r.defaulted "heritage" (list? SymbolId.ofJson?) []
    index := ← r.optional "index" IndexTypes.ofJson? }

end Declaration

/-- A table of symbols as an object. -/
def symbolTableToJson (t : Table String SymbolId) : Json :=
  .obj (t.entries.map fun e => (e.1, e.2.toJson))

/-- A table of symbols from an object; a name given twice keeps its place and takes the last
value. -/
def symbolTableOfJson? : Json → Option (Table String SymbolId)
  | .obj members => do
    let entries ← members.mapM fun m => (SymbolId.ofJson? m.2).map fun id => (m.1, id)
    return Table.ofList entries
  | _ => none

namespace Symbol

/-- The stored form of a symbol, for a given form of its tables. -/
def toJsonWith (table : Table String SymbolId → Json) (s : Symbol) : Json :=
  ofFields
    [field "name" (.str s.name), field "flags" s.flags.toJson,
      fieldIf (!s.exports.isEmpty) "exports" (table s.exports),
      fieldIf (!s.members.isEmpty) "members" (table s.members),
      fieldList "declarations" Declaration.toJson s.declarations,
      fieldOpt "valueDeclaration" Json.nat s.valueDeclaration,
      fieldOpt "type" TypeId.toJson s.typeId,
      fieldOpt "aliasOf" SymbolId.toJson s.aliasOf,
      fieldIf (s.doc != "") "doc" (.str s.doc)]

def toJson (s : Symbol) : Json := s.toJsonWith symbolTableToJson

def ofJson? (j : Json) : Option Symbol := do
  let r ← record?
    [("name", .required), ("flags", .required), ("exports", .defaulted), ("members", .defaulted),
      ("declarations", .defaulted), ("valueDeclaration", .defaulted), ("type", .defaulted),
      ("aliasOf", .defaulted), ("doc", .defaulted)] j
  return {
    name := ← r.required "name" Json.str?
    flags := ← r.required "flags" FlagSet.ofJson?
    exports := ← r.defaulted "exports" symbolTableOfJson? .empty
    members := ← r.defaulted "members" symbolTableOfJson? .empty
    declarations := ← r.defaulted "declarations" (list? Declaration.ofJson?) []
    valueDeclaration := ← r.optional "valueDeclaration" word64?
    typeId := ← r.optional "type" TypeId.ofJson?
    aliasOf := ← r.optional "aliasOf" SymbolId.ofJson?
    doc := ← r.defaulted "doc" Json.str? "" }

end Symbol

namespace TypeNode

def toJson (t : TypeNode) : Json :=
  ofFields
    [field "flags" t.flags.toJson, field "objectFlags" t.objectFlags.toJson,
      fieldOpt "symbol" SymbolId.toJson t.symbol,
      fieldOpt "targetName" Json.str t.targetName,
      fieldList "typeArguments" TypeId.toJson t.typeArguments,
      fieldList "constituents" TypeId.toJson t.constituents,
      fieldOpt "literal" Literal.toJson t.literal,
      fieldIf t.isThisType "isThisType" (.bool true),
      field "display" (.str t.display),
      fieldList "callSignatures" SignatureId.toJson t.callSignatures,
      fieldList "constructSignatures" SignatureId.toJson t.constructSignatures]

def ofJson? (j : Json) : Option TypeNode := do
  let r ← record?
    [("flags", .required), ("objectFlags", .defaulted), ("symbol", .defaulted),
      ("targetName", .defaulted), ("typeArguments", .defaulted), ("constituents", .defaulted),
      ("literal", .defaulted), ("isThisType", .defaulted), ("display", .required),
      ("callSignatures", .defaulted), ("constructSignatures", .defaulted)] j
  return {
    flags := ← r.required "flags" FlagSet.ofJson?
    objectFlags := ← r.defaulted "objectFlags" FlagSet.ofJson? .none
    symbol := ← r.optional "symbol" SymbolId.ofJson?
    targetName := ← r.optional "targetName" Json.str?
    typeArguments := ← r.defaulted "typeArguments" (list? TypeId.ofJson?) []
    constituents := ← r.defaulted "constituents" (list? TypeId.ofJson?) []
    literal := ← r.optional "literal" Literal.ofJson?
    isThisType := ← r.defaulted "isThisType" Json.bool? false
    display := ← r.required "display" Json.str?
    callSignatures := ← r.defaulted "callSignatures" (list? SignatureId.ofJson?) []
    constructSignatures := ← r.defaulted "constructSignatures" (list? SignatureId.ofJson?) [] }

end TypeNode

namespace Signature

def toJson (s : Signature) : Json :=
  ofFields
    [fieldList "parameters" SymbolId.toJson s.parameters,
      field "returnType" s.returnType.toJson,
      fieldOpt "pos" SourcePos.toJson s.pos,
      fieldIf (s.doc != "") "doc" (.str s.doc)]

def ofJson? (j : Json) : Option Signature := do
  let r ← record?
    [("parameters", .defaulted), ("returnType", .required), ("pos", .defaulted),
      ("doc", .defaulted)] j
  return {
    parameters := ← r.defaulted "parameters" (list? SymbolId.ofJson?) []
    returnType := ← r.required "returnType" TypeId.ofJson?
    pos := ← r.optional "pos" SourcePos.ofJson?
    doc := ← r.defaulted "doc" Json.str? "" }

end Signature

namespace SourceFile

def toJson (f : SourceFile) : Json :=
  ofFields [field "path" (.str f.path), fieldOpt "symbol" SymbolId.toJson f.symbol]

def ofJson? (j : Json) : Option SourceFile := do
  let r ← record? [("path", .required), ("symbol", .defaulted)] j
  return {
    path := ← r.required "path" Json.str?
    symbol := ← r.optional "symbol" SymbolId.ofJson? }

end SourceFile

namespace OutputLayout

def toJson (l : OutputLayout) : Json :=
  ofFields [field "rootDir" (.str l.rootDir), field "outDir" (.str l.outDir)]

def ofJson? (j : Json) : Option OutputLayout := do
  let r ← record? [("rootDir", .required), ("outDir", .required)] j
  return {
    rootDir := ← r.required "rootDir" Json.str?
    outDir := ← r.required "outDir" Json.str? }

end OutputLayout

namespace SymbolGraph

/-- The stored form of a graph, for a given form of the symbol tables. -/
def toJsonWith (table : Table String SymbolId → Json) (g : SymbolGraph) : Json :=
  ofFields
    [field "files" (.arr (g.files.map SourceFile.toJson)),
      field "symbols" (.arr (g.symbols.toList.map (Symbol.toJsonWith table))),
      field "types" (.arr (g.types.toList.map TypeNode.toJson)),
      field "signatures" (.arr (g.signatures.toList.map Signature.toJson)),
      fieldOpt "layout" OutputLayout.toJson g.layout]

/-- The stored form of a graph. -/
def toJson (g : SymbolGraph) : Json := g.toJsonWith symbolTableToJson

def ofJson? (j : Json) : Option SymbolGraph := do
  let r ← record?
    [("files", .required), ("symbols", .required), ("types", .required),
      ("signatures", .defaulted), ("layout", .defaulted)] j
  return {
    files := ← r.required "files" (list? SourceFile.ofJson?)
    symbols := (← r.required "symbols" (list? Symbol.ofJson?)).toArray
    types := (← r.required "types" (list? TypeNode.ofJson?)).toArray
    signatures := (← r.defaulted "signatures" (list? Signature.ofJson?) []).toArray
    layout := ← r.optional "layout" OutputLayout.ofJson? }

/-- The indented text of a graph. -/
def toText (g : SymbolGraph) : String := g.toJson.pretty

/-- Why a text holds no graph. -/
inductive ReadError where
  /-- The text is no JSON, or not that of a graph. -/
  | malformed
  /-- The graph is not self-contained. -/
  | invalid (m : Mention)
  deriving DecidableEq, Repr

/-- A valid graph from a text. -/
def ofText (text : String) : Except ReadError SymbolGraph :=
  match (Json.parse? text).bind ofJson? with
  | none => .error .malformed
  | some g =>
    match g.dangling? with
    | some m => .error (.invalid m)
    | none => .ok g

end SymbolGraph

end ApiDocs
