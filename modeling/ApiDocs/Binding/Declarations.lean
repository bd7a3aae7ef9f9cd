import ApiDocs.Binding.Members

/-!
# Declarations and statements

The statements of a file add its declarations to a draft. A declaration says how it is seen from
outside its container: not at all, under its name, or as the default.

## Main definitions

* `Visibility`: how a declaration is exported.
* `Site.declared`: a declaration.
* `Site.statement`: a statement.
* `GraphDraft.addSource`: all statements of a file.
-/

namespace ApiDocs

open TypeScript
open GraphDraft

/-- How a declaration is exported from its container. -/
inductive Visibility where
  | hidden
  | exported
  | default
  deriving DecidableEq, Repr, Inhabited

/-- The modifiers of a declaration that is exported so. -/
def Visibility.modifiers : Visibility → ModifierFlags
  | hidden => .none
  | exported => ModifierFlags.exportBit
  | default => ModifierFlags.exportBit ∪ ModifierFlags.defaultBit

/-- The name of a default export. -/
def defaultName : String := "default"

/-- What a declaration is part of: its container, how it is exported, and its stretch together with
the words that export it. -/
structure Placement where
  container : Container
  visibility : Visibility
  span : Span
  deriving Repr, Inhabited

namespace Site

/-- Export a symbol as its placement says. A script exports nothing. -/
def publish (place : Placement) (name : String) (symbol : SymbolId) : Drafting Unit := do
  if let .symbol container := place.container then
    match place.visibility with
    | .hidden => return
    | .exported => rebuild (·.exportAs container name symbol)
    | .default => rebuild (·.exportAs container defaultName symbol)

/-- The symbol of a declared name, bound in the innermost scope. -/
def bindHere (site : Site) (container : Container) (name : String) (flags : SymbolFlags) :
    Drafting SymbolId := do
  let symbol ← bindNamed container name flags
  site.bindLocal name symbol
  return symbol

/-- The symbol of a declaration that may have no name; it is then known as the default. -/
def bindMaybe (site : Site) (container : Container) (name : Option String) (flags : SymbolFlags) :
    Drafting SymbolId :=
  match name with
  | some n => site.bindHere container n flags
  | none => bindNamed container defaultName flags

/-- Declare a symbol where it is placed, with its documentation, and export it. -/
def introduce (site : Site) (place : Placement) (name : String) (symbol : SymbolId)
    (kind : DeclarationKind) (modifiers : ModifierFlags) : Drafting Nat := do
  let declaration ← site.declare symbol kind place.span (place.visibility.modifiers ∪ modifiers)
  attachDoc symbol (site.docAt place.span.start).summaryText
  publish place name symbol
  return declaration

/-! ## Variables and functions -/

/-- A variable. One that is declared alone stands for the whole statement. -/
def variableItem (site : Site) (place : Placement) (tree : VariablesTree) (v : VariableTree) :
    Drafting Unit := do
  if let some name := v.pattern.single then
    let symbol ← site.bindHere place.container name SymbolFlags.variableBit
    let span := if tree.items.length == 1 then place.span else v.span
    discard (site.declare symbol .variableDecl span
      (place.visibility.modifiers ∪ flagIf tree.isDeclared ModifierFlags.declareBit))
    attachDoc symbol (site.docAt place.span.start).summaryText
    let type :=
      match v.type with
      | some t => some (site.typeExpr t)
      | none => v.value.bind (site.infer? (tree.kind == VariableKind.isConst))
    noteType symbol (type.getD .any)
    publish place name symbol

/-- A function. -/
def function (site : Site) (place : Placement) (f : FunctionTree) : Drafting Unit := do
  let symbol ← site.bindMaybe place.container f.name SymbolFlags.functionBit
  discard (site.introduce place (f.name.getD defaultName) symbol .functionDecl
    (flagIf f.isDeclared ModifierFlags.declareBit ∪ flagIf f.isAsync ModifierFlags.asyncBit))
  site.callSignature symbol f place.span (site.docAt place.span.start)

/-! ## Classes and interfaces -/

/-- Note the names that a declaration extends or implements. -/
def noteHeritage (symbol : SymbolId) (declaration : Nat) (names : List NameRef) : Drafting Unit := do
  if !names.isEmpty then
    modify fun d => { d with heritage := d.heritage ++ [⟨symbol, declaration, names⟩] }

/-- A class. -/
def classLike (site : Site) (place : Placement) (c : ClassTree) : Drafting Unit := do
  let symbol ← site.bindMaybe place.container c.name SymbolFlags.classBit
  let declaration ← site.introduce place (c.name.getD defaultName) symbol .classDecl
    (flagIf c.isAbstract ModifierFlags.abstractBit ∪ flagIf c.isDeclared ModifierFlags.declareBit)
  let inner := (← site.enter (boundTypeParameters c.typeParameters)).within symbol
  let base := c.base.map (inner.refer .asValue)
  noteHeritage symbol declaration (base.toList ++ c.implemented.map (inner.refer .asType))
  modify fun d => { d with classes := d.classes ++ [⟨symbol, base⟩] }
  inner.typeParameters c.typeParameters
  c.members.forM (inner.classMember symbol)

/-- An interface. -/
def interfaceLike (site : Site) (place : Placement) (i : InterfaceTree) : Drafting Unit := do
  let symbol ← site.bindHere place.container i.name SymbolFlags.interfaceBit
  let declaration ← site.introduce place i.name symbol .interfaceDecl
    (flagIf i.isDeclared ModifierFlags.declareBit)
  let inner := (← site.enter (boundTypeParameters i.typeParameters)).within symbol
  noteHeritage symbol declaration (i.bases.map (inner.refer .asType))
  noteType symbol (.instanceOf symbol)
  inner.typeParameters i.typeParameters
  i.members.forM (inner.interfaceMember symbol)

/-! ## Type aliases and enums -/

/-- A type alias. -/
def typeAlias (site : Site) (place : Placement) (a : AliasTree) : Drafting Unit := do
  let symbol ← site.bindHere place.container a.name SymbolFlags.typeAliasBit
  discard (site.introduce place a.name symbol .typeAlias .none)
  let inner ← site.enter (boundTypeParameters a.typeParameters)
  inner.typeParameters a.typeParameters
  modify fun d => { d with typeAliases := d.typeAliases.insert symbol (inner.typeExpr a.type) }

/-- The value that an initializer gives to a member of an enum, if it is a literal. -/
def enumValue? : Expr → Option Literal
  | .number v => some (.number v)
  | .negative v => some (.number v.neg)
  | .text v => some (.text v)
  | .parens e => enumValue? e
  | _ => none

/-- The value of a member of an enum, given the value for a member without an initializer. -/
def memberValue? (next : Option Binary64) (m : EnumMemberTree) : Option Literal :=
  match m.value with
  | some e => enumValue? e
  | none => next.map .number

/-- The value for a member without an initializer behind a member with some value. -/
def nextValue? : Option Literal → Option Binary64
  | some (.number v) => some (v.add Binary64.one)
  | _ => none

/-- The members of an enum with their values. Members with computed names are left out. -/
def enumMembers (site : Site) (enum : SymbolId) :
    Option Binary64 → List EnumMemberTree → Drafting (List (SymbolId × Option Literal))
  | _, [] => return []
  | next, m :: rest =>
    match m.name with
    | none => enumMembers site enum next rest
    | some name => do
      let value := memberValue? next m
      let symbol ← bindMember enum name SymbolFlags.enumMemberBit true
      discard (site.declare symbol .enumMember m.span .none)
      attachDoc symbol (site.docAt m.span.start).summaryText
      return (symbol, value) :: (← enumMembers site enum (nextValue? value) rest)

/-- An enum. -/
def enumLike (site : Site) (place : Placement) (e : EnumTree) : Drafting Unit := do
  let symbol ← site.bindHere place.container e.name SymbolFlags.enumBit
  discard (site.introduce place e.name symbol .enumDecl
    (flagIf e.isDeclared ModifierFlags.declareBit))
  noteEnum symbol (← site.enumMembers symbol (some (.zero false)) e.members)

/-! ## Imports and exports -/

/-- What a name takes from a module. -/
def importNameOf (name : String) : ImportName :=
  if name == defaultName then .defaultExport else .named name

/-- A name that an import takes. -/
def importSpecifier (site : Site) (container : Container) (source : String) (s : ImportSpecifier) :
    Drafting Unit := do
  let symbol ← site.bindHere container s.localName SymbolFlags.aliasBit
  discard (site.declare symbol .importDecl s.span .none)
  noteAlias symbol (.imported site.path source s.imported)

/-- Export an alias under a name. -/
def exportAlias (site : Site) (container : SymbolId) (name : String) (span : Span)
    (modifiers : ModifierFlags) (target : AliasTarget) : Drafting Unit := do
  let symbol ← build (·.addSymbol name SymbolFlags.aliasBit)
  discard (site.declare symbol .exportSpecifier span modifiers)
  noteAlias symbol target
  rebuild (·.exportAs container name symbol)

/-- A name that an export gives. -/
def exportSpecifier (site : Site) (container : SymbolId) (source : Option String)
    (s : ExportSpecifier) : Drafting Unit :=
  let target :=
    match source with
    | some source => .imported site.path source (importNameOf s.localName)
    | none => .name (site.refer (if s.typeOnly then .asType else .asEither) (.name s.localName))
  site.exportAlias container s.exported s.span ModifierFlags.exportBit target

/-- The default export of a value. A name is an alias, any other value a variable. -/
def exportValue (site : Site) (container : SymbolId) (span : Span) (value : Expr) :
    Drafting Unit := do
  match value with
  | .name n =>
    site.exportAlias container defaultName span Visibility.default.modifiers
      (.name (site.refer .asEither (.name n)))
  | _ =>
    let symbol ← build (·.addSymbol defaultName SymbolFlags.variableBit)
    discard (site.declare symbol .variableDecl span Visibility.default.modifiers)
    attachDoc symbol (site.docAt span.start).summaryText
    noteType symbol ((site.infer? true value).getD .any)
    rebuild (·.exportAs container defaultName symbol)

/-- All that a module exports, under a name or name by name. -/
def exportAll (site : Site) (container : SymbolId) (span : Span) (name : Option String)
    (source : String) : Drafting Unit :=
  match name with
  | some n =>
    site.exportAlias container n span ModifierFlags.exportBit
      (.imported site.path source .wholeModule)
  | none => modify fun d => { d with stars := d.stars ++ [⟨container, site.path, source⟩] }

/-- Do something in a module or namespace, and nothing in a script. -/
def inModule (container : Container) (f : SymbolId → Drafting Unit) : Drafting Unit :=
  match container with
  | .symbol id => f id
  | .script _ => pure ()

/-! ## Statements -/

mutual

/-- A declaration. -/
def declared (site : Site) (place : Placement) : Declared → Drafting Unit
  | .variableGroup t => t.items.forM (site.variableItem place t)
  | .functionLike f => site.function place f
  | .classLike c => site.classLike place c
  | .interfaceLike i => site.interfaceLike place i
  | .typeAlias a => site.typeAlias place a
  | .enumLike e => site.enumLike place e
  | .namespaceLike name body => do
    let symbol ← site.bindHere place.container name SymbolFlags.moduleBit
    discard (site.introduce place name symbol .moduleDecl .none)
    match body with
    | some statements =>
      let inner ← site.enter (statements.flatMap Statement.bound)
      inner.statements (.symbol symbol) statements
    | none => return
  | .importEquals _ => pure ()
  | .nameless => pure ()

/-- A statement of a container. -/
def statement (site : Site) (container : Container) : Statement → Drafting Unit
  | .declared span d => site.declared ⟨container, .hidden, span⟩ d
  | .exported span d => site.declared ⟨container, .exported, span⟩ d
  | .exportNames specifiers source =>
    inModule container fun c => specifiers.forM (site.exportSpecifier c source)
  | .exportFunction span f => site.function ⟨container, .default, span⟩ f
  | .exportClass span c => site.classLike ⟨container, .default, span⟩ c
  | .exportInterface span i => site.interfaceLike ⟨container, .default, span⟩ i
  | .exportValue span value => inModule container fun c => site.exportValue c span value
  | .exportAll span name source => inModule container fun c => site.exportAll c span name source
  | .imported specifiers source => specifiers.forM (site.importSpecifier container source)
  | .exportAssignment => pure ()
  | .other _ => pure ()

/-- The statements of a container, in order. -/
def statements (site : Site) (container : Container) : List Statement → Drafting Unit
  | [] => pure ()
  | s :: rest => do
    site.statement container s
    site.statements container rest

end

end Site

/-- Add the file for a source: a module if the source is one, else a script. -/
def GraphDraft.addFile (file : Nat) (path : String) (tree : SourceTree) : Drafting Container := do
  if tree.isModule then
    let symbol ← build (·.addModule path)
    modify fun d => { d with modules := d.modules.insert path symbol }
    return .symbol symbol
  else
    rebuild (·.addScript path)
    return .script file

/-- **Add a source:** its file and all its statements. -/
def GraphDraft.addSource (file : Nat) (path text : String) (tree : SourceTree) (scoping : Scoping) :
    Drafting Unit := do
  let container ← addFile file path tree
  let site : Site := {
    file, path, scoping
    lines := LineIndex.ofText text
    docs := tree.docs
    frames := [⟨← freshScope, tree.statements.flatMap Statement.bound⟩]
    owner := none }
  site.statements container tree.statements

end ApiDocs
