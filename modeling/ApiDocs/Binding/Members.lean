import ApiDocs.Binding.Site

/-!
# Members of classes and interfaces

Parameters, methods, properties and index signatures become symbols, and their types and signatures
are noted.

## Main definitions

* `Site.declare`: a declaration of a symbol.
* `Site.parameters`: the symbols of parameters.
* `Site.callSignature`: a signature of a function or method.
* `Site.classMember`, `Site.interfaceMember`: members.
-/

namespace ApiDocs

open TypeScript
open GraphDraft

namespace Site

/-! ## Declarations and scopes -/

/-- Declare a symbol; the position of the new declaration comes back. -/
def declare (site : Site) (symbol : SymbolId) (kind : DeclarationKind) (span : Span)
    (modifiers : ModifierFlags) : Drafting Nat :=
  build (·.declare symbol { kind, pos := site.pos span, modifiers })

/-- The place inside a new scope that binds the names. -/
def enter (site : Site) (bound : List Bound) : Drafting Site := do
  return site.inside ⟨← freshScope, bound⟩

/-- Note the symbol of a name that is declared in the innermost scope, if the name makes a binding. -/
def bindLocal (site : Site) (name : String) (symbol : SymbolId) : Drafting Unit := do
  if let some binding := site.localRef? name then GraphDraft.bindLocal binding symbol

/-- The names that type parameters bind. -/
def boundTypeParameters (ps : List TypeParameter) : List Bound :=
  ps.map fun p => (p.name, .typeParameter)

/-- The names that parameters bind. -/
def boundParameters (ps : Parameters) : List Bound :=
  (ps.items.flatMap (·.pattern.names) ++ ps.rest.toList.flatMap (·.pattern.names)).map
    fun n => (n, .variableLike)

/-- The names that a function binds in its own scope. -/
def boundInFunction (f : FunctionTree) : List Bound :=
  boundTypeParameters f.typeParameters ++ boundParameters f.parameters ++ f.body.getD []

/-- Make the symbols of type parameters. -/
def typeParameters (site : Site) (ps : List TypeParameter) : Drafting Unit :=
  ps.forM fun p => do
    let symbol ← build (·.addSymbol p.name SymbolFlags.typeParameterBit)
    discard (site.declare symbol .typeParameter p.span .none)
    site.bindLocal p.name symbol

/-! ## Modifiers and names of members -/

/-- The flag of how far a member can be seen. -/
def accessFlag : Option Access → ModifierFlags
  | some .isPublic => ModifierFlags.publicBit
  | some .isProtected => ModifierFlags.protectedBit
  | some .isPrivate => ModifierFlags.privateBit
  | none => .none

/-- A flag if a condition holds. -/
def flagIf (c : Bool) (flag : ModifierFlags) : ModifierFlags := if c then flag else .none

/-- The modifiers of a member. -/
def memberModifiers (access : Option Access) (isStatic isReadonly isPrivateName : Bool) :
    ModifierFlags :=
  accessFlag access ∪ flagIf isPrivateName ModifierFlags.privateBit ∪
    flagIf isStatic ModifierFlags.staticBit ∪ flagIf isReadonly ModifierFlags.readonlyBit

/-- Is the key a private name? -/
def isPrivateKey : MemberKey → Bool
  | .privateName _ => true
  | _ => false

/-- The name of a member; a private name keeps its sign. -/
def memberName? : MemberKey → Option String
  | .known n => some n
  | .privateName n => some ("#" ++ n)
  | .computed => none

/-- Flags with that of what may be left out. -/
def withOptional (flags : SymbolFlags) (isOptional : Bool) : SymbolFlags :=
  if isOptional then flags ∪ SymbolFlags.optionalBit else flags

/-! ## Parameters -/

/-- The name of a parameter; one that is a pattern is named by its position. -/
def parameterName (pattern : Pattern) (position : Nat) : String :=
  pattern.single.getD ("__" ++ toString position)

/-- The symbol of a parameter. A parameter of a constructor that is given modifiers is a property of
the class `owner`, too. -/
def parameter (site : Site) (doc : DocComment) (owner : Option SymbolId) (position : Nat)
    (p : Parameter) : Drafting SymbolId := do
  let name := parameterName p.pattern position
  let symbol ← build (·.addSymbol name
    (withOptional SymbolFlags.variableBit (p.isOptional || p.default.isSome)))
  discard (site.declare symbol .parameter p.span .none)
  if p.pattern.single.isSome then site.bindLocal name symbol
  attachDoc symbol (doc.parameter name)
  let type :=
    match p.type with
    | some t => site.typeExpr t
    | none => (p.default.bind (site.infer? false)).getD .any
  noteType symbol type
  if let some owner := owner then
    if p.access.isSome || p.isReadonly then
      let property ← bindMember owner name SymbolFlags.propertyBit false
      discard (site.declare property .property p.span
        (memberModifiers p.access false p.isReadonly false))
      attachDoc property (doc.parameter name)
      noteType property type
  return symbol

/-- The symbol of the parameter for all further arguments. -/
def restParameter (site : Site) (doc : DocComment) (position : Nat) (p : RestParameter) :
    Drafting SymbolId := do
  let name := parameterName p.pattern position
  let symbol ← build (·.addSymbol name SymbolFlags.variableBit)
  discard (site.declare symbol .parameter p.span .none)
  if p.pattern.single.isSome then site.bindLocal name symbol
  attachDoc symbol (doc.parameter name)
  noteType symbol ((p.type.map site.typeExpr).getD (.array .any))
  return symbol

/-- The symbols of parameters. -/
def parameters (site : Site) (ps : Parameters) (doc : DocComment) (owner : Option SymbolId) :
    Drafting (List SymbolId) := do
  let items ← ps.items.zipIdx.mapM fun (p, i) => site.parameter doc owner i p
  let rest ← ps.rest.toList.mapM (site.restParameter doc ps.items.length)
  return items ++ rest

/-! ## Signatures -/

/-- Note a signature of a function, read at a place inside its scope. -/
def signature (site : Site) (owner : SignatureOwner) (f : FunctionTree) (span : Span)
    (doc : DocComment) (propertyOwner : Option SymbolId) (result : Option TypeTree) :
    Drafting Unit := do
  site.typeParameters f.typeParameters
  let parameters ← site.parameters f.parameters doc propertyOwner
  noteSignature {
    owner, parameters
    result := result.map site.typeExpr
    pos := site.pos span
    doc := doc.summaryText
    hasBody := f.body.isSome }

/-- Note a signature of a function or method. -/
def callSignature (site : Site) (symbol : SymbolId) (f : FunctionTree) (span : Span)
    (doc : DocComment) : Drafting Unit := do
  let inner ← site.enter (boundInFunction f)
  inner.signature (.call symbol) f span doc none f.result

/-! ## Members -/

/-- The type that an accessor gives to its member: the result of a getter, or the type of what a
setter takes. A default takes the place of the latter. -/
def accessorType? (m : MethodTree) : Option TypeTree :=
  match m.kind with
  | .getter => m.function.result
  | _ => m.function.parameters.items.head?.bind fun p => if p.default.isNone then p.type else none

/-- A getter or setter. -/
def accessor (site : Site) (owner : SymbolId) (name : String) (m : MethodTree)
    (modifiers : ModifierFlags) : Drafting Unit := do
  let doc := site.docAt m.span.start
  let member ← bindMember owner name SymbolFlags.accessorBit m.isStatic
  discard (site.declare member .accessor m.span modifiers)
  attachDoc member doc.summaryText
  let inner ← site.enter (boundInFunction m.function)
  if let some t := accessorType? m then noteType member (inner.typeExpr t)

/-- A method that is no accessor. -/
def plainMethod (site : Site) (owner : SymbolId) (name : String) (m : MethodTree)
    (modifiers : ModifierFlags) : Drafting Unit := do
  let doc := site.docAt m.span.start
  let member ← bindMember owner name (withOptional SymbolFlags.methodBit m.isOptional) m.isStatic
  discard (site.declare member .method m.span modifiers)
  attachDoc member doc.summaryText
  site.callSignature member m.function m.span doc

/-- A constructor of a class. -/
def constructorMember (site : Site) (owner : SymbolId) (m : MethodTree) : Drafting Unit := do
  let doc := site.docAt m.span.start
  let inner ← site.enter (boundInFunction m.function)
  inner.signature (.construct owner) m.function m.span doc (some owner) none

/-- A method of a class or interface. One with a computed name is left out. -/
def method (site : Site) (owner : SymbolId) (m : MethodTree) : Drafting Unit := do
  if m.kind == .construct then site.constructorMember owner m
  else
    match memberName? m.key with
    | none => return
    | some name =>
      let modifiers := memberModifiers m.access m.isStatic false (isPrivateKey m.key)
      match m.kind with
      | .getter | .setter => site.accessor owner name m modifiers
      | _ => site.plainMethod owner name m modifiers

/-- A property of a class or interface. One with a computed name is left out. -/
def property (site : Site) (owner : SymbolId) (p : PropertyTree) : Drafting Unit := do
  match memberName? p.key with
  | none => return
  | some name =>
    let member ← bindMember owner name (withOptional SymbolFlags.propertyBit p.isOptional) p.isStatic
    discard (site.declare member .property p.span
      (memberModifiers p.access p.isStatic p.isReadonly (isPrivateKey p.key)))
    attachDoc member (site.docAt p.span.start).summaryText
    let type :=
      match p.type with
      | some t => some (site.typeExpr t)
      | none => p.value.bind (site.infer? p.isReadonly)
    noteType member (type.getD .any)

/-- The name of the member that holds index signatures. -/
def indexMember : String := "__index"

/-- An index signature. -/
def indexSignature (site : Site) (owner : SymbolId) (i : IndexTree) : Drafting Unit := do
  let member ← bindMember owner indexMember SymbolFlags.indexSignatureBit i.isStatic
  let declaration ← site.declare member .indexSignature i.span
    (flagIf i.isReadonly ModifierFlags.readonlyBit)
  modify fun d => { d with indexes := d.indexes ++
    [{ symbol := member, declaration, key := i.key.map site.typeExpr, value := site.typeExpr i.value }] }

/-- A member of a class. -/
def classMember (site : Site) (owner : SymbolId) : ClassMember → Drafting Unit
  | .method m => site.method owner m
  | .property p => site.property owner p
  | .index i => site.indexSignature owner i
  | .other => pure ()

/-- A member of an interface. -/
def interfaceMember (site : Site) (owner : SymbolId) : InterfaceMember → Drafting Unit
  | .method m => site.method owner m
  | .property p => site.property owner p
  | .index i => site.indexSignature owner i
  | .construct span f => do
    let inner ← site.enter (boundInFunction f)
    inner.signature (.construct owner) f span (site.docAt span.start) none f.result
  | .call => pure ()

end Site

end ApiDocs
