import ApiDocs.Docs.Model
import ApiDocs.Graph.Codec

/-!
# Documentation as JSON

The model is stored as an object with its modules, classes, enums and references. Absent values are
left out, lists are always written. A rendered documentation carries the version of the format and
the time of its making around the model.

## Main definitions

* `Documentation.toJson`, `Documentation.ofJson?`: the stored form.
* `Documentation.ofText?`: a documentation from a text.
* `Documentation.render`: the text of a documentation with version and time.
-/

namespace ApiDocs

open Json (field fieldOpt fieldIf fieldList ofFields record? list?)

namespace ClassId

def toJson (id : ClassId) : Json := .nat id.index
def ofJson? (j : Json) : Option ClassId := (word32? j).map ClassId.mk

end ClassId

namespace EnumId

def toJson (id : EnumId) : Json := .nat id.index
def ofJson? (j : Json) : Option EnumId := (word32? j).map EnumId.mk

end EnumId

namespace RefId

def toJson (id : RefId) : Json := .nat id.index
def ofJson? (j : Json) : Option RefId := (word32? j).map RefId.mk

end RefId

namespace UnsupportedKind

def code : UnsupportedKind → String
  | tuple => "tuple"
  | other => "other"

def ofJson? (j : Json) : Option UnsupportedKind :=
  (Json.choiceName? j).bind fun name => [tuple, other].find? (·.code == name)

end UnsupportedKind

namespace ClassKind

def code : ClassKind → String
  | ofClass => "class"
  | ofInterface => "interface"

def ofJson? (j : Json) : Option ClassKind :=
  (Json.choiceName? j).bind fun name => [ofClass, ofInterface].find? (·.code == name)

end ClassKind

/-- An object with one member, for one of several alternatives. -/
def oneOf (name : String) (v : Json) : Json := .obj [(name, v)]

namespace TypeDoc

mutual

def toJson : TypeDoc → Json
  | .name text => oneOf "name" (.str text)
  | .literal primitive value =>
    oneOf "literal" (ofFields [field "name" (.str primitive), field "value" value.toJson])
  | .ref target arguments =>
    oneOf "ref"
      (ofFields
        [field "target" target.toJson,
          fieldIf (!arguments.isEmpty) "arguments" (.arr (allToJson arguments))])
  | .arrayOf element => oneOf "arrayOf" (toJson element)
  | .unionOf members => oneOf "unionOf" (.arr (allToJson members))
  | .intersectionOf members => oneOf "intersectionOf" (.arr (allToJson members))
  | .unsupported kind display =>
    oneOf "unsupported" (ofFields [field "kind" (.str kind.code), field "display" (.str display)])

def allToJson : List TypeDoc → List Json
  | [] => []
  | t :: ts => toJson t :: allToJson ts

end

/-- A type from its stored form. A type holds another one at least one object deeper, so `depth`
may be the nesting limit of texts. -/
def decode? : Nat → Json → Option TypeDoc
  | 0, _ => none
  | depth + 1, j => do
    let (alternative, v) ← Json.choice? j
    match alternative with
    | "name" => v.str?.map .name
    | "literal" =>
      let r ← record? [("name", .required), ("value", .required)] v
      return .literal (← r.required "name" Json.str?) (← r.required "value" Literal.ofJson?)
    | "ref" =>
      let r ← record? [("target", .required), ("arguments", .defaulted)] v
      return .ref (← r.required "target" RefId.ofJson?)
        (← r.defaulted "arguments" (list? (decode? depth)) [])
    | "arrayOf" => (decode? depth v).map .arrayOf
    | "unionOf" => (list? (decode? depth) v).map .unionOf
    | "intersectionOf" => (list? (decode? depth) v).map .intersectionOf
    | "unsupported" =>
      let r ← record? [("kind", .required), ("display", .required)] v
      return .unsupported (← r.required "kind" UnsupportedKind.ofJson?)
        (← r.required "display" Json.str?)
    | _ => none

/-- A type from its stored form. -/
def ofJson? (j : Json) : Option TypeDoc := decode? (Json.nestingLimit + 1) j

end TypeDoc

namespace IdentifierDoc

def toJson (i : IdentifierDoc) : Json :=
  ofFields
    [field "name" (.str i.name), fieldOpt "type" TypeDoc.toJson i.type,
      fieldIf i.optional "optional" (.bool true), fieldOpt "value" Literal.toJson i.value,
      fieldOpt "pos" SourcePos.toJson i.pos, fieldOpt "doc" Json.str i.doc]

def ofJson? (j : Json) : Option IdentifierDoc := do
  let r ← record?
    [("name", .required), ("type", .optional), ("optional", .defaulted), ("value", .optional),
      ("pos", .optional), ("doc", .optional)] j
  return {
    name := ← r.required "name" Json.str?
    type := ← r.optional "type" TypeDoc.ofJson?
    optional := ← r.defaulted "optional" Json.bool? false
    value := ← r.optional "value" Literal.ofJson?
    pos := ← r.optional "pos" SourcePos.ofJson?
    doc := ← r.optional "doc" Json.str? }

end IdentifierDoc

namespace SignatureDoc

def toJson (s : SignatureDoc) : Json :=
  ofFields
    [fieldOpt "pos" SourcePos.toJson s.pos,
      field "paramList" (.arr (s.paramList.map IdentifierDoc.toJson)),
      field "returnType" s.returnType.toJson, fieldOpt "doc" Json.str s.doc]

def ofJson? (j : Json) : Option SignatureDoc := do
  let r ← record?
    [("pos", .optional), ("paramList", .required), ("returnType", .required),
      ("doc", .optional)] j
  return {
    pos := ← r.optional "pos" SourcePos.ofJson?
    paramList := ← r.required "paramList" (list? IdentifierDoc.ofJson?)
    returnType := ← r.required "returnType" TypeDoc.ofJson?
    doc := ← r.optional "doc" Json.str? }

end SignatureDoc

namespace FunctionDoc

def toJson (f : FunctionDoc) : Json :=
  ofFields
    [fieldOpt "name" Json.str f.name,
      field "signatureList" (.arr (f.signatureList.map SignatureDoc.toJson))]

def ofJson? (j : Json) : Option FunctionDoc := do
  let r ← record? [("name", .optional), ("signatureList", .required)] j
  return {
    name := ← r.optional "name" Json.str?
    signatureList := ← r.required "signatureList" (list? SignatureDoc.ofJson?) }

end FunctionDoc

namespace IndexDoc

def toJson (i : IndexDoc) : Json :=
  ofFields
    [fieldOpt "signature" TypeDoc.toJson i.signature, fieldOpt "value" TypeDoc.toJson i.value]

def ofJson? (j : Json) : Option IndexDoc := do
  let r ← record? [("signature", .optional), ("value", .optional)] j
  return {
    signature := ← r.optional "signature" TypeDoc.ofJson?
    value := ← r.optional "value" TypeDoc.ofJson? }

end IndexDoc

namespace EnumDoc

def toJson (e : EnumDoc) : Json :=
  ofFields
    [field "name" (.str e.name), fieldOpt "pos" SourcePos.toJson e.pos,
      fieldOpt "doc" Json.str e.doc,
      field "memberList" (.arr (e.memberList.map IdentifierDoc.toJson))]

def ofJson? (j : Json) : Option EnumDoc := do
  let r ← record?
    [("name", .required), ("pos", .optional), ("doc", .optional), ("memberList", .required)] j
  return {
    name := ← r.required "name" Json.str?
    pos := ← r.optional "pos" SourcePos.ofJson?
    doc := ← r.optional "doc" Json.str?
    memberList := ← r.required "memberList" (list? IdentifierDoc.ofJson?) }

end EnumDoc

namespace ModuleDoc

def toJson (m : ModuleDoc) : Json :=
  ofFields
    [field "enumList" (.arr (m.enumList.map EnumId.toJson)),
      field "classList" (.arr (m.classList.map ClassId.toJson)),
      field "interfaceList" (.arr (m.interfaceList.map ClassId.toJson)),
      field "functionList" (.arr (m.functionList.map FunctionDoc.toJson)),
      field "variableList" (.arr (m.variableList.map IdentifierDoc.toJson))]

def ofJson? (j : Json) : Option ModuleDoc := do
  let r ← record?
    [("enumList", .required), ("classList", .required), ("interfaceList", .required),
      ("functionList", .required), ("variableList", .required)] j
  return {
    enumList := ← r.required "enumList" (list? EnumId.ofJson?)
    classList := ← r.required "classList" (list? ClassId.ofJson?)
    interfaceList := ← r.required "interfaceList" (list? ClassId.ofJson?)
    functionList := ← r.required "functionList" (list? FunctionDoc.ofJson?)
    variableList := ← r.required "variableList" (list? IdentifierDoc.ofJson?) }

end ModuleDoc

namespace ClassDoc

def toJson (c : ClassDoc) : Json :=
  ofFields
    [field "name" (.str c.name), field "kind" (.str c.kind.code),
      fieldOpt "pos" SourcePos.toJson c.pos, fieldOpt "doc" Json.str c.doc,
      fieldOpt "construct" FunctionDoc.toJson c.construct,
      field "methodList" (.arr (c.methodList.map FunctionDoc.toJson)),
      field "propertyList" (.arr (c.propertyList.map IdentifierDoc.toJson)),
      fieldOpt "index" IndexDoc.toJson c.index,
      field "extendList" (.arr (c.extendList.map ClassId.toJson)),
      field "exports" c.exports.toJson]

def ofJson? (j : Json) : Option ClassDoc := do
  let r ← record?
    [("name", .required), ("kind", .required), ("pos", .optional), ("doc", .optional),
      ("construct", .optional), ("methodList", .required), ("propertyList", .required),
      ("index", .optional), ("extendList", .required), ("exports", .required)] j
  return {
    name := ← r.required "name" Json.str?
    kind := ← r.required "kind" ClassKind.ofJson?
    pos := ← r.optional "pos" SourcePos.ofJson?
    doc := ← r.optional "doc" Json.str?
    construct := ← r.optional "construct" FunctionDoc.ofJson?
    methodList := ← r.required "methodList" (list? FunctionDoc.ofJson?)
    propertyList := ← r.required "propertyList" (list? IdentifierDoc.ofJson?)
    index := ← r.optional "index" IndexDoc.ofJson?
    extendList := ← r.required "extendList" (list? ClassId.ofJson?)
    exports := ← r.required "exports" ModuleDoc.ofJson? }

end ClassDoc

namespace RefTarget

def toJson : RefTarget → Json
  | toClass id => oneOf "class" id.toJson
  | toEnum id => oneOf "enum" id.toJson

def ofJson? (j : Json) : Option RefTarget := do
  let (name, v) ← Json.choice? j
  match name with
  | "class" => (ClassId.ofJson? v).map toClass
  | "enum" => (EnumId.ofJson? v).map toEnum
  | _ => none

end RefTarget

namespace RefDoc

def toJson (r : RefDoc) : Json :=
  ofFields [field "name" (.str r.name), fieldOpt "target" RefTarget.toJson r.target]

def ofJson? (j : Json) : Option RefDoc := do
  let r ← record? [("name", .required), ("target", .optional)] j
  return {
    name := ← r.required "name" Json.str?
    target := ← r.optional "target" RefTarget.ofJson? }

end RefDoc

namespace Documentation

def toJson (d : Documentation) : Json :=
  ofFields
    [field "modules" (.arr (d.modules.map ModuleDoc.toJson)),
      field "classes" (.arr (d.classes.toList.map ClassDoc.toJson)),
      field "enums" (.arr (d.enums.toList.map EnumDoc.toJson)),
      field "refs" (.arr (d.refs.toList.map RefDoc.toJson))]

def ofJson? (j : Json) : Option Documentation := do
  let r ← record?
    [("modules", .required), ("classes", .required), ("enums", .required), ("refs", .required)] j
  return {
    modules := ← r.required "modules" (list? ModuleDoc.ofJson?)
    classes := (← r.required "classes" (list? ClassDoc.ofJson?)).toArray
    enums := (← r.required "enums" (list? EnumDoc.ofJson?)).toArray
    refs := (← r.required "refs" (list? RefDoc.ofJson?)).toArray }

/-- A documentation from a text. -/
def ofText? (text : String) : Option Documentation := (Json.parse? text).bind ofJson?

/-- The version of the format. -/
def formatVersion : String := "0.1.0"

/-- A documentation with version and time of making. -/
def envelope (d : Documentation) (generatedAt : String) : Json :=
  ofFields
    [field "version" (.str formatVersion), field "generatedAt" (.str generatedAt),
      field "documentation" d.toJson]

/-- The text of a documentation, indented or compact. -/
def render (d : Documentation) (generatedAt : String) (indented : Bool) : String :=
  if indented then (d.envelope generatedAt).pretty else (d.envelope generatedAt).compact

end Documentation

end ApiDocs
