import ApiDocs.Extract.Alias
import ApiDocs.Extract.SymbolView

/-!
# Walking declarations

A walk builds records from declared symbols. Classes and enums are entered in the lists, and their
references pointed to them, before their insides are looked at: a member of the type of its own
class, or a cycle of classes, then meets a class that is already there. For the same reason the
classes that a class extends are noted as references, and turned into classes at the end.

## Main definitions

* `WalkState`, `Walk`: the records built so far.
* `Route`: which record a declaration leads to.
* `Walk.assemble`: the record of a symbol, added to a module.
* `WalkState.finish`: the documentation without its modules.
-/

namespace ApiDocs

/-- The records built so far. -/
structure WalkState where
  refs : RefTable SymbolId := .empty
  classes : Array ClassDoc := #[]
  enums : Array EnumDoc := #[]
  /-- The references in the heritage clauses of classes, linked at the end. -/
  pendingExtends : List (ClassId × List RefId) := []
  deriving Repr

/-- A computation over the records that may fail. -/
abbrev Walk := StateT WalkState (Except ExtractError)

/-- The list with the entry at a position changed, or the failure that there is none. -/
def modifyAt (arena : Arena) (a : Array α) (i : Nat) (f : α → α) :
    Except ExtractError (Array α) :=
  if i < a.size then .ok (a.modify i f) else .error (.dangling arena i)

/-- The record at a position, or the failure that there is none. -/
def RefTable.getRef (t : RefTable SymbolId) (id : RefId) : Except ExtractError RefDoc :=
  match t.get? id with
  | some r => .ok r
  | none => .error (.dangling .references id.index)

/-- Which record a declaration leads to. -/
inductive Route where
  | toFunction
  | toEnum
  | toClass (kind : ClassKind)
  | toVariable
  | skip
  deriving DecidableEq, Repr

/-- The route of a kind of declaration. -/
def DeclarationKind.route : DeclarationKind → Route
  | functionDecl => .toFunction
  | enumDecl => .toEnum
  | classDecl => .toClass .ofClass
  | interfaceDecl => .toClass .ofInterface
  | variableDecl => .toVariable
  | _ => .skip

namespace Walk

variable (g : SymbolGraph)

/-- Describe a type. -/
def describe (id : TypeId) : Walk TypeDoc := do
  let s ← get
  let (t, refs) ← g.describe id s.refs
  set { s with refs }
  return t

/-- The target of the record of a symbol that was built. -/
def existingTarget (v : SymbolView) : Walk (Option RefTarget) := do
  let refs := (← get).refs
  match refs.lookup v.symbol v.name with
  | none => return none
  | some id => return (← refs.getRef id).target

/-- The record of a symbol, with a target if one is given. -/
def requestRef (symbol : SymbolId) (name : String) (target : Option RefTarget) : Walk RefId :=
  modifyGet fun s =>
    let (id, refs) := s.refs.request symbol name target
    (id, { s with refs })

/-! ## Identifiers and functions -/

/-- The value of an identifier: that of a described literal, else that of a literal type. -/
def literalValue (described : Option TypeDoc) (t : Option TypeNode) : Option Literal :=
  match described with
  | some (.literal _ value) => some value
  | _ =>
    t.bind fun t =>
      if t.flags.meets (TypeFlags.stringLiteralBit ∪ TypeFlags.numberLiteralBit) then t.literal
      else none

/-- A property, parameter, enum member or variable. -/
def identifier (v : SymbolView) (optional : Bool) : Walk IdentifierDoc := do
  let type ← v.typeId.mapM (describe g)
  let node ← v.typeId.mapM fun id => g.getType id
  return {
    name := v.name
    type := type
    optional := optional
    value := literalValue type node
    pos := v.pos
    doc := v.doc }

/-- A parameter of a signature. -/
def parameter (id : SymbolId) : Walk IdentifierDoc := do
  let v ← g.view id
  identifier g v (v.flags.has SymbolFlags.optionalBit)

/-- One way to call. -/
def signature (id : SignatureId) : Walk SignatureDoc := do
  let s ← g.getSignature id
  let returnType ← describe g s.returnType
  let paramList ← s.parameters.mapM (parameter g)
  return { pos := s.pos, paramList, returnType, doc := Text.nonBlank? s.doc }

/-- A function with the call signatures of its type. -/
def function (v : SymbolView) : Walk FunctionDoc := do
  match v.typeId with
  | none => return { name := some v.name }
  | some id =>
    let t ← g.getType id
    return { name := some v.name, signatureList := ← t.callSignatures.mapM (signature g) }

/-- The types of an index signature. -/
def indexTypes (v : SymbolView) : Walk (Option IndexDoc) := do
  match v.declaration.bind (·.index) with
  | none => return none
  | some index =>
    let signature ← index.key.mapM (describe g)
    let value ← index.value.mapM (describe g)
    return some { signature, value }

/-! ## Enums -/

/-- The exports of a symbol whose flags pass a test. Only some symbols have exports that are looked
into. -/
def exportsWhere (keep : SymbolFlags → Bool) (s : Symbol) : Except ExtractError (List SymbolId) :=
  if s.flags.meets SymbolFlags.hasExports then
    s.exports.values.filterM fun id => do return keep (← g.getSymbol id).flags
  else return []

/-- The members of an enum: those of its exports that are enum members. -/
def enumMembers (s : Symbol) : Walk (List IdentifierDoc) := do
  let ids ← exportsWhere g (·.has SymbolFlags.enumMemberBit) s
  ids.mapM fun id => do identifier g (← g.view id) false

/-- Enter an enum without its members. -/
def enterEnum (v : SymbolView) : Walk EnumId := do
  let id : EnumId := ⟨(← get).enums.size⟩
  modify fun s => { s with enums := s.enums.push { name := v.name, pos := v.pos, doc := v.doc } }
  let _ ← requestRef v.symbol v.name (some (.toEnum id))
  return id

/-- Fill in the members of an enum. -/
def fillEnum (id : EnumId) (members : List IdentifierDoc) : Walk Unit := do
  let s ← get
  let enums ← modifyAt .enums s.enums id.index fun e => { e with memberList := members }
  set { s with enums }

/-- The building of an enum that was not built before. -/
def enumBody (v : SymbolView) : Walk EnumId := do
  let id ← enterEnum v
  let members ← enumMembers g (← g.getSymbol v.symbol)
  fillEnum id members
  return id

/-- An enum, built on first sight. -/
def buildEnum (v : SymbolView) : Walk EnumId := do
  if let some (.toEnum existing) ← existingTarget v then return existing
  enumBody g v

/-! ## Classes -/

/-- The methods, the properties and the index signature of a class. -/
structure ClassBody where
  methods : List FunctionDoc := []
  properties : List IdentifierDoc := []
  index : Option IndexDoc := none

/-- Add a member to a class body. Private members are left out. -/
def addMember (body : ClassBody) (id : SymbolId) : Walk ClassBody := do
  let v ← g.view id
  if v.declaration.any (·.isPrivate) then return body
  if v.flags.has SymbolFlags.methodBit then
    return { body with methods := body.methods ++ [← function g v] }
  if v.flags.meets (SymbolFlags.propertyBit ∪ SymbolFlags.accessorBit) then
    let property ← identifier g v (v.flags.has SymbolFlags.optionalBit)
    return { body with properties := body.properties ++ [property] }
  if v.kind = some .indexSignature then
    return { body with index := ← indexTypes g v }
  return body

/-- The constructors of a class: the construct signatures of its type. -/
def constructors (v : SymbolView) : Walk (List SignatureDoc) := do
  match v.typeId with
  | none => return []
  | some id => (← g.getType id).constructSignatures.mapM (signature g)

/-- The reference of a class named in a heritage clause. One that resolves to nothing, or to a
symbol without declarations, is passed over. -/
def heritageRef (limit : Nat) (base : SymbolId) : Walk (List RefId) := do
  let name := (← g.getSymbol base).name
  match ← g.resolveAlias limit name base with
  | none => return []
  | some target =>
    let s ← g.getSymbol target
    if s.declarations.isEmpty then return []
    return [← requestRef target s.name none]

/-- Note the heritage of a class. -/
def noteHeritage (limit : Nat) (id : ClassId) (v : SymbolView) : Walk Unit := do
  let heritage := (v.declaration.map (·.heritage)).getD []
  let refs := (← heritage.mapM (heritageRef g limit)).flatten
  if !refs.isEmpty then
    modify fun s => { s with pendingExtends := s.pendingExtends ++ [(id, refs)] }

/-- Enter a class without its insides. -/
def enterClass (v : SymbolView) (kind : ClassKind) : Walk ClassId := do
  let id : ClassId := ⟨(← get).classes.size⟩
  modify fun s =>
    { s with classes := s.classes.push { name := v.name, kind, pos := v.pos, doc := v.doc } }
  let _ ← requestRef v.symbol v.name (some (.toClass id))
  return id

/-- What is known of a class before the symbols nested in it are looked at. -/
structure OpenClass where
  id : ClassId
  constructors : List SignatureDoc
  body : ClassBody
  nested : List SymbolId

/-- The record of a class with its insides. -/
def OpenClass.fill (c : OpenClass) (exports : ModuleDoc) (d : ClassDoc) : ClassDoc :=
  { c.constructors.foldl ClassDoc.addConstructor d with
    methodList := c.body.methods
    propertyList := c.body.properties
    index := c.body.index
    exports := exports }

/-- Fill in the insides of a class. -/
def fillClass (c : OpenClass) (exports : ModuleDoc) : Walk Unit := do
  let s ← get
  let classes ← modifyAt .classes s.classes c.id.index (c.fill exports)
  set { s with classes }

/-- The symbols nested in a class: its exports that are not class members. -/
def nestedExports (s : Symbol) : Except ExtractError (List SymbolId) :=
  exportsWhere g (!·.meets SymbolFlags.classMember) s

/-- Enter a class, and all of it but what is nested in it. -/
def openClass (limit : Nat) (v : SymbolView) (kind : ClassKind) : Walk OpenClass := do
  let id ← enterClass v kind
  let constructors ← constructors g v
  let symbol ← g.getSymbol v.symbol
  let body ← symbol.members.values.foldlM (addMember g) {}
  noteHeritage g limit id v
  return { id, constructors, body, nested := ← nestedExports g symbol }

/-- The building of a class that was not built before; `nested` adds the record of a nested symbol to
a module. -/
def classBody (limit : Nat) (nested : SymbolView → ModuleDoc → Walk ModuleDoc)
    (v : SymbolView) (kind : ClassKind) : Walk ClassId := do
  let c ← openClass g limit v kind
  let exports ← c.nested.foldlM (fun m id => do nested (← g.view id) m) {}
  fillClass c exports
  return c.id

/-- A class, built on first sight. -/
def buildClass (limit : Nat) (nested : SymbolView → ModuleDoc → Walk ModuleDoc)
    (v : SymbolView) (kind : ClassKind) : Walk ClassId := do
  if let some (.toClass existing) ← existingTarget v then return existing
  classBody g limit nested v kind

/-- **The record of a symbol, added to a module.** Every class inside a class is another symbol, so
`depth` may be the number of symbols. -/
def assemble (limit : Nat) : Nat → SymbolView → ModuleDoc → Walk ModuleDoc
  | depth, v, m =>
    match v.kind.map DeclarationKind.route with
    | some .toFunction => do return { m with functionList := m.functionList ++ [← function g v] }
    | some .toEnum => do return { m with enumList := m.enumList ++ [← buildEnum g v] }
    | some .toVariable => do
      return { m with variableList := m.variableList ++ [← identifier g v false] }
    | some (.toClass kind) =>
      match depth with
      | 0 => throw .nestingExceeded
      | depth + 1 => do
        let id ← buildClass g limit (assemble limit depth) v kind
        match kind with
        | .ofClass => return { m with classList := m.classList ++ [id] }
        | .ofInterface => return { m with interfaceList := m.interfaceList ++ [id] }
    | some .skip => return m
    | none => return m

end Walk

namespace WalkState

/-- Add a base to a class, unless it is the class itself or there already. -/
def extend (id base : ClassId) (c : ClassDoc) : ClassDoc :=
  if base = id || base ∈ c.extendList then c else { c with extendList := c.extendList ++ [base] }

/-- Link one noted base of a class; a reference that leads to no class is passed over. -/
def linkBase (refs : RefTable SymbolId) (id : ClassId) (classes : Array ClassDoc) (ref : RefId) :
    Except ExtractError (Array ClassDoc) := do
  match (← refs.getRef ref).target with
  | some (.toClass base) => modifyAt .classes classes id.index (extend id base)
  | _ => return classes

/-- Link the noted bases of a class. -/
def linkBases (refs : RefTable SymbolId) (classes : Array ClassDoc) (noted : ClassId × List RefId) :
    Except ExtractError (Array ClassDoc) :=
  noted.2.foldlM (linkBase refs noted.1) classes

/-- The documentation without its modules: all noted bases are linked. -/
def finish (s : WalkState) : Except ExtractError Documentation := do
  let classes ← s.pendingExtends.foldlM (linkBases s.refs) s.classes
  return { classes, enums := s.enums, refs := s.refs.refs }

end WalkState

end ApiDocs
