import ApiDocs.Binding.Draft
import ApiDocs.Binding.ModulePath

/-!
# Linking drafts

When all files are read, the notes of a draft are settled in this order: what modules export of one
another, the targets of aliases, what declarations extend, the types of enums, of symbols and of
index signatures, and at last signatures and the types of functions and classes.

A type alias stands for its type. Aliases that refer to themselves are cut off after a number of
expansions, as are constructors inherited in a circle.

## Main definitions

* `Linking`: a graph whose notes are being settled.
* `Linking.followAlias`: the end of a chain of aliases.
* `Linking.resolve`: the symbol of a name.
* `Linking.materialize`: the type of an expression.
* `Linking.starRound`: one round of exports of exports.
* `GraphDraft.link`: the graph of a draft.
-/

namespace ApiDocs

open TypeScript (KeywordType)

/-- How long a chain of aliases is followed. -/
def maxAliasChain : Nat := 64

/-- How deep type aliases are expanded and constructors inherited. -/
def maxExpansion : Nat := 16

/-- A graph whose notes are being settled. -/
structure Linking where
  builder : GraphBuilder
  modules : Table String SymbolId
  locals : Table LocalRef SymbolId
  globals : Table String SymbolId
  typeAliases : Table SymbolId TypeExpr
  /-- Types that are made once: of the instances of a class or interface, of type parameters, of
  enums and their members, and of type aliases. -/
  instances : Table SymbolId TypeId := .empty
  parameterTypes : Table SymbolId TypeId := .empty
  enumTypes : Table SymbolId TypeId := .empty
  aliasTypes : Table SymbolId TypeId := .empty
  constructors : Table SymbolId (List SignatureId) := .empty
  /-- How many type aliases are being expanded within each other. -/
  expansionDepth : Nat := 0
  deriving Inhabited

namespace Linking

/-- A step of linking. -/
abbrev LinkM := StateM Linking

/-- Work on the graph. -/
def build (f : GraphBuilder → α × GraphBuilder) : LinkM α := fun l =>
  let (a, builder) := f l.builder
  (a, { l with builder })

/-- Change the graph. -/
def rebuild (f : GraphBuilder → GraphBuilder) : LinkM Unit :=
  modify fun l => { l with builder := f l.builder }

/-! ## Names -/

/-- The end of a chain of at most so many aliases. A chain that returns to a symbol ends before. -/
def followFrom (b : GraphBuilder) : Nat → List SymbolId → SymbolId → SymbolId
  | 0, _, s => s
  | n + 1, seen, s =>
    match b.aliasOf s with
    | some t => if t ∈ seen then s else followFrom b n (s :: seen) t
    | none => s

/-- The end of a chain of aliases. -/
def followAlias (b : GraphBuilder) (s : SymbolId) : SymbolId := followFrom b maxAliasChain [] s

/-- The symbol that a module or namespace exports under a name. -/
def exportOf? (b : GraphBuilder) (container : SymbolId) (name : String) : Option SymbolId :=
  (b.exportsOf container).get? name

/-- The symbol of a name among what is known. -/
def lookup? (l : Linking) : NameRef → Option SymbolId
  | .bound binding => l.locals.get? binding
  | .within left name =>
    (l.lookup? left).bind fun s => exportOf? l.builder (followAlias l.builder s) name
  | .global name => l.globals.get? name

/-- Make the library declare an interface. -/
def declareGlobal (name : String) : LinkM SymbolId := do
  let symbol ← build (·.addSymbol name SymbolFlags.interfaceBit)
  discard (build (·.declare symbol GraphBuilder.libraryDeclaration))
  modify fun l => { l with globals := l.globals.insert name symbol }
  return symbol

/-- The symbol of a name in a place where a type is meant: a name that is known nowhere is that of
an interface of the library. -/
def resolveType (ref : NameRef) : LinkM (Option SymbolId) := do
  match (← get).lookup? ref, ref with
  | some symbol, _ => return some symbol
  | none, .global name => return some (← declareGlobal name)
  | none, _ => return none

/-! ## Exports of exports -/

/-- Export from `container` what `target` exports, but for names that are there and the default. -/
def copyExports (b : GraphBuilder) (container target : SymbolId) : GraphBuilder :=
  (b.exportsOf target).entries.foldl (fun b (name, symbol) =>
    if name == "default" || (b.exportsOf container).contains name then b
    else b.exportAs container name symbol) b

/-- One round: each module takes what the modules it names export so far. -/
def starRound (edges : List (SymbolId × SymbolId)) (b : GraphBuilder) : GraphBuilder :=
  edges.foldl (fun b (container, target) => copyExports b container target) b

/-- Apply a function a number of times. -/
def times (f : α → α) : Nat → α → α
  | 0, a => a
  | n + 1, a => times f n (f a)

/-- All rounds. A name passes at least one edge in each round, and never needs to pass an edge twice,
so as many rounds as there are edges are enough. -/
def linkStars (stars : List StarDraft) : LinkM Unit := do
  let modules := (← get).modules
  let edges := stars.filterMap fun star =>
    (ModulePath.resolve? modules star.source star.specifier).map fun target =>
      (star.container, target)
  rebuild (times (starRound edges) edges.length)

/-! ## Aliases and heritage -/

/-- The target of an alias. -/
def aliasTarget? (l : Linking) : AliasTarget → Option SymbolId
  | .name ref => l.lookup? ref
  | .imported source specifier what =>
    (ModulePath.resolve? l.modules source specifier).bind fun target =>
      match what with
      | .wholeModule => some target
      | .defaultExport => exportOf? l.builder target "default"
      | .named name => exportOf? l.builder target name

/-- Give an alias its target. An alias for itself has none. -/
def linkAlias (draft : AliasDraft) : LinkM Unit := do
  if let some target := (← get).aliasTarget? draft.target then
    if target ≠ draft.symbol then rebuild (·.aliasTo draft.symbol target)

/-- Give a declaration the symbols that it extends or implements. -/
def linkHeritage (draft : HeritageDraft) : LinkM Unit := do
  let symbols ← draft.names.mapM resolveType
  rebuild (·.modifyDeclaration draft.symbol draft.declaration fun d =>
    { d with heritage := symbols.filterMap id })

/-! ## Types -/

/-- The type of the instances of a class or interface. -/
def instanceType (symbol : SymbolId) : LinkM TypeId := do
  match (← get).instances.get? symbol with
  | some t => return t
  | none =>
    let t ← build (·.reference symbol [])
    modify fun l => { l with instances := l.instances.insert symbol t }
    return t

/-- The type of a type parameter. -/
def parameterType (symbol : SymbolId) : LinkM TypeId := do
  match (← get).parameterTypes.get? symbol with
  | some t => return t
  | none =>
    let t ← build (·.typeParameter symbol)
    modify fun l => { l with parameterTypes := l.parameterTypes.insert symbol t }
    return t

/-- The type of a class or interface with arguments. The library's `Array` of one argument is the
type of arrays. -/
def instantiate (symbol : SymbolId) : List TypeId → LinkM TypeId
  | [] => instanceType symbol
  | [element] =>
    if symbol = GraphBuilder.arraySymbol then build (·.arrayOf element)
    else build (·.reference symbol [element])
  | arguments => build (·.reference symbol arguments)

/-- What a symbol stands for where a type is meant. -/
inductive TypeMeaning where
  /-- A type that is already there, as of an enum. -/
  | known (type : TypeId)
  | instantiable
  | parameter
  | expandable
  /-- A value, which stands for no type. -/
  | value
  deriving DecidableEq, Repr

/-- What a symbol stands for where a type is meant. -/
def meaningOf (l : Linking) (symbol : SymbolId) : TypeMeaning :=
  let flags := l.builder.flagsOf symbol
  let enumType :=
    if flags.meets (SymbolFlags.enumBit ∪ SymbolFlags.enumMemberBit) then l.enumTypes.get? symbol
    else none
  match enumType with
  | some t => .known t
  | none =>
    if flags.meets (SymbolFlags.classBit ∪ SymbolFlags.interfaceBit) then .instantiable
    else if flags.has SymbolFlags.typeParameterBit then .parameter
    else if flags.has SymbolFlags.typeAliasBit then .expandable
    else .value

/-- The display of a boolean. -/
def booleanText (value : Bool) : String := if value then "true" else "false"

/-- How a reference to a type alias becomes a type, given the alias and its name as written. -/
abbrev Expansion := SymbolId → String → LinkM TypeId

mutual

/-- The type of an expression, with `expand` for type aliases. A name that stands for no type is
kept as written. -/
def materializeWith (expand : Expansion) : TypeExpr → LinkM TypeId
  | .keyword k => build (·.intrinsic k.flags k.word)
  | .text v => build (·.literal (.text v))
  | .number v => build (·.literal (.number v))
  | .boolean v => build (·.intrinsic TypeFlags.booleanLiteralBit (booleanText v))
  | .reference name target arguments => do
    match ← resolveType target with
    | none => build (·.anonymous name)
    | some symbol =>
      let symbol := followAlias (← get).builder symbol
      match (← get).meaningOf symbol with
      | .known t => return t
      | .instantiable =>
        let arguments ← materializeAll expand arguments
        instantiate symbol arguments
      | .parameter => parameterType symbol
      | .expandable => expand symbol name
      | .value => build (·.anonymous name)
  | .instanceOf symbol => instanceType symbol
  | .array element => do
    let element ← materializeWith expand element
    build (·.arrayOf element)
  | .union members => do
    let members ← materializeAll expand members
    build (·.union members)
  | .intersection members => do
    let members ← materializeAll expand members
    build (·.intersection members)
  | .tuple elements => do
    let elements ← materializeAll expand elements
    build (·.tuple elements)
  | .this (some owner) => build (·.thisType owner)
  | .this none => build (·.any)
  | .verbatim written => build (·.anonymous written)

/-- The types of expressions. -/
def materializeAll (expand : Expansion) : List TypeExpr → LinkM (List TypeId)
  | [] => return []
  | t :: ts => do
    let t ← materializeWith expand t
    return t :: (← materializeAll expand ts)

end

/-- Do what is done within one more type alias. -/
def expanding (x : LinkM α) : LinkM α := do
  modify fun l => { l with expansionDepth := l.expansionDepth + 1 }
  let a ← x
  modify fun l => { l with expansionDepth := l.expansionDepth - 1 }
  return a

/-- The type of a type alias, made once, given how an expression becomes a type. An alias without an
expression is known by its name, as all are where expressions are no longer made types. -/
def aliasType (make? : Option (TypeExpr → LinkM TypeId)) : Expansion
  | symbol, name => do
    match (← get).aliasTypes.get? symbol, (← get).typeAliases.get? symbol, make? with
    | some t, _, _ => return t
    | none, some expr, some make =>
      let t ← expanding (make expr)
      modify fun l => { l with aliasTypes := l.aliasTypes.insert symbol t }
      return t
    | none, _, _ => build (·.anonymous name)

/-- The type of a type alias. At most so many aliases are expanded within each other. -/
def expandAlias : Nat → Expansion
  | 0 => aliasType none
  | depth + 1 => aliasType (some (materializeWith (expandAlias depth)))

/-- **The type of an expression.** -/
def materialize (expr : TypeExpr) : LinkM TypeId := materializeWith (expandAlias maxExpansion) expr

/-! ## Types of symbols -/

/-- The type of a member of an enum: that of its value, or `number` where the value is not known. -/
def enumMemberType (member : SymbolId) : Option Literal → LinkM TypeId
  | some value => build (·.enumLiteral member value)
  | none => build (·.number)

/-- Give an enum and its members their types. -/
def linkEnum (draft : EnumDraft) : LinkM Unit := do
  let literals ← draft.members.mapM fun (member, value) => do
    let t ← enumMemberType member value
    rebuild (·.setType member t)
    modify fun l => { l with enumTypes := l.enumTypes.insert member t }
    return if value.isSome then some t else none
  let t ← build (·.enumType draft.symbol (literals.filterMap id))
  rebuild (·.setType draft.symbol t)
  modify fun l => { l with enumTypes := l.enumTypes.insert draft.symbol t }

/-- Give a symbol its type, unless it has one. -/
def linkType (symbol : SymbolId) (expr : TypeExpr) : LinkM Unit := do
  if ((← get).builder.typeOf symbol).isNone then
    let t ← materialize expr
    rebuild (·.setType symbol t)

/-- Give an index signature its types. -/
def linkIndex (draft : IndexDraft) : LinkM Unit := do
  let key ← draft.key.mapM materialize
  let value ← materialize draft.value
  rebuild (·.modifyDeclaration draft.symbol draft.declaration fun d =>
    { d with index := some ⟨key, some value⟩ })

/-! ## Signatures -/

/-- The signatures of each owner, the owners in the order in which they first occur. -/
def groupByOwner (drafts : List SignatureDraft) : Table SignatureOwner (List SignatureDraft) :=
  drafts.foldl (fun groups d => groups.modify d.owner [] (· ++ [d])) .empty

/-- The signatures that can be seen: one with a body is hidden if there are some without. -/
def visibleSignatures (drafts : List SignatureDraft) : List SignatureDraft :=
  if drafts.any (!·.hasBody) then drafts.filter (!·.hasBody) else drafts

/-- The result type of a signature. -/
def resultType (draft : SignatureDraft) : LinkM TypeId :=
  match draft.result, draft.owner with
  | some expr, _ => materialize expr
  | none, .construct symbol => instanceType symbol
  | none, .call _ => build (·.any)

/-- Make a signature. -/
def makeSignature (draft : SignatureDraft) : LinkM SignatureId := do
  let returnType ← resultType draft
  build (·.addSignature
    { parameters := draft.parameters, returnType, pos := some draft.pos, doc := draft.doc })

/-- Make the signatures of an owner. Those of a class are kept for the classes that extend it. -/
def linkOwner (owner : SignatureOwner) (drafts : List SignatureDraft) : LinkM Unit := do
  let signatures ← (visibleSignatures drafts).mapM makeSignature
  match owner with
  | .call symbol =>
    let t ← build fun b => b.functionType ("typeof " ++ b.nameOf symbol) signatures
    rebuild (·.setType symbol t)
  | .construct symbol =>
    if ((← get).builder.flagsOf symbol).has SymbolFlags.classBit then
      modify fun l => { l with constructors := l.constructors.insert symbol signatures }
    else
      let t ← instanceType symbol
      signatures.forM fun s => rebuild (·.addConstructSignature t s)

/-- The class that a class extends, as far as it is another class. -/
def baseOf? (l : Linking) (bases : Table SymbolId NameRef) (symbol : SymbolId) : Option SymbolId := do
  let ref ← bases.get? symbol
  let base ← l.lookup? ref
  let base := followAlias l.builder base
  if base ≠ symbol && (l.builder.flagsOf base).has SymbolFlags.classBit then some base else none

/-- A copy of an inherited constructor that makes instances of another type. -/
def inheritSignature (instanceId : TypeId) (id : SignatureId) : LinkM (Option SignatureId) := do
  match (← get).builder.graph.signature? id with
  | some s => return some (← build (·.addSignature { s with returnType := instanceId }))
  | none => return none

/-- The constructors of a class that has none of its own: copies of those of its base, given how to
get these, or one without parameters. -/
def impliedConstructors (inherit? : Option (SymbolId → LinkM (List SignatureId)))
    (base : Option SymbolId) (instanceId : TypeId) : LinkM (List SignatureId) := do
  match base, inherit? with
  | some base, some inherit =>
    let inherited ← inherit base
    return (← inherited.mapM (inheritSignature instanceId)).filterMap id
  | _, _ => return [← build (·.addSignature { parameters := [], returnType := instanceId })]

/-- The constructors of a class, made once. -/
def constructorsVia (inherit? : Option (SymbolId → LinkM (List SignatureId)))
    (bases : Table SymbolId NameRef) (symbol : SymbolId) : LinkM (List SignatureId) := do
  match (← get).constructors.get? symbol with
  | some signatures => return signatures
  | none =>
    let base := (← get).baseOf? bases symbol
    let instanceId ← instanceType symbol
    let signatures ← impliedConstructors inherit? base instanceId
    modify fun l => { l with constructors := l.constructors.insert symbol signatures }
    return signatures

/-- The constructors of a class, those of a base at most so many classes up. -/
def constructorsOf (bases : Table SymbolId NameRef) : Nat → SymbolId → LinkM (List SignatureId)
  | 0 => constructorsVia none bases
  | depth + 1 => constructorsVia (some (constructorsOf bases depth)) bases

/-- Give a class the type of its constructors. -/
def linkClass (bases : Table SymbolId NameRef) (draft : ClassDraft) : LinkM Unit := do
  let signatures ← constructorsOf bases maxExpansion draft.symbol
  let t ← build (·.constructorType draft.symbol signatures)
  rebuild (·.setType draft.symbol t)

/-- The names that classes extend; of a class declared again the last one counts. -/
def basesOf (classes : List ClassDraft) : Table SymbolId NameRef :=
  Table.ofList (classes.filterMap fun c => c.base.map fun base => (c.symbol, base))

end Linking

/-! ## The graph -/

open Linking in
/-- Settle the notes of a draft. -/
def GraphDraft.settle (d : GraphDraft) : LinkM Unit := do
  linkStars d.stars
  d.aliases.forM linkAlias
  d.heritage.forM linkHeritage
  d.enums.forM linkEnum
  d.symbolTypes.forM fun (symbol, expr) => linkType symbol expr
  d.indexes.forM linkIndex
  (groupByOwner d.signatures).entries.forM fun (owner, drafts) => linkOwner owner drafts
  d.classes.forM (linkClass (basesOf d.classes))

/-- **The graph of a draft.** -/
def GraphDraft.link (d : GraphDraft) : SymbolGraph :=
  let start : Linking := {
    builder := d.builder, modules := d.modules, locals := d.locals, globals := d.globals,
    typeAliases := d.typeAliases }
  (d.settle.run start).2.builder.graph

end ApiDocs
