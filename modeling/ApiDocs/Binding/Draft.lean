import ApiDocs.Binding.TypeExpr
import ApiDocs.Graph.Builder

/-!
# Drafts of symbol graphs

Reading a file adds its symbols to a graph and notes what can only be settled when all files are
read: the targets of aliases, what classes extend, and all types.

## Main definitions

* `Container`: what a name is declared in.
* `AliasDraft`, `SignatureDraft`, …: notes.
* `GraphDraft`: a growing graph with its notes.
* `GraphDraft.bindNamed`, `GraphDraft.bindMember`, `GraphDraft.bindLocal`: the symbols of names.
-/

namespace ApiDocs

open TypeScript (ImportName)

/-- What a name is declared in. -/
inductive Container where
  /-- The top level of a file that is no module; its names are known in all files. -/
  | script (file : Nat)
  /-- A module or namespace. -/
  | symbol (id : SymbolId)
  deriving DecidableEq, Repr, Inhabited

/-- What a signature belongs to. -/
inductive SignatureOwner where
  | call (symbol : SymbolId)
  | construct (symbol : SymbolId)
  deriving DecidableEq, Repr, Inhabited

/-- A signature without its result type. -/
structure SignatureDraft where
  owner : SignatureOwner
  parameters : List SymbolId
  result : Option TypeExpr
  pos : SourcePos
  doc : String
  hasBody : Bool
  deriving Repr, Inhabited

/-- An index signature without its types. -/
structure IndexDraft where
  symbol : SymbolId
  declaration : Nat
  key : Option TypeExpr
  value : TypeExpr
  deriving Repr, Inhabited

/-- The members of an enum, with their values where these are known. -/
structure EnumDraft where
  symbol : SymbolId
  members : List (SymbolId × Option Literal)
  deriving Repr, Inhabited

/-- The names that a declaration extends or implements. -/
structure HeritageDraft where
  symbol : SymbolId
  declaration : Nat
  names : List NameRef
  deriving Repr, Inhabited

/-- A class and the name that it extends. -/
structure ClassDraft where
  symbol : SymbolId
  base : Option NameRef
  deriving Repr, Inhabited

/-- Where an alias leads. -/
inductive AliasTarget where
  | name (ref : NameRef)
  /-- What the source at a path takes from the module that a specifier names. -/
  | imported (source specifier : String) (what : ImportName)
  deriving Repr, Inhabited

/-- An alias without its target. -/
structure AliasDraft where
  symbol : SymbolId
  target : AliasTarget
  deriving Repr, Inhabited

/-- A module that exports all that another one does. -/
structure StarDraft where
  container : SymbolId
  source : String
  specifier : String
  deriving Repr, Inhabited

/-- A growing graph with the notes on what is to be settled. -/
structure GraphDraft where
  builder : GraphBuilder
  /-- Modules by the path of their file. -/
  modules : Table String SymbolId := .empty
  /-- Symbols of bindings. -/
  locals : Table LocalRef SymbolId := .empty
  /-- Symbols by what they are declared in. -/
  named : Table (Container × String) SymbolId := .empty
  /-- Symbols that are known in all files. -/
  globals : Table String SymbolId
  /-- Types of symbols; the first of a symbol counts. -/
  symbolTypes : List (SymbolId × TypeExpr) := []
  typeAliases : Table SymbolId TypeExpr := .empty
  signatures : List SignatureDraft := []
  indexes : List IndexDraft := []
  enums : List EnumDraft := []
  heritage : List HeritageDraft := []
  classes : List ClassDraft := []
  aliases : List AliasDraft := []
  stars : List StarDraft := []
  /-- The number of the next scope. -/
  nextScope : Nat := 0
  deriving Inhabited

namespace GraphDraft

/-- The library alone. -/
def start : GraphDraft where
  builder := .start
  globals := Table.empty.insert "Array" GraphBuilder.arraySymbol

/-- A step of drawing up a draft. -/
abbrev Drafting := StateM GraphDraft

/-- Work on the graph. -/
def build (f : GraphBuilder → α × GraphBuilder) : Drafting α := fun d =>
  let (a, builder) := f d.builder
  (a, { d with builder })

/-- Change the graph. -/
def rebuild (f : GraphBuilder → GraphBuilder) : Drafting Unit :=
  modify fun d => { d with builder := f d.builder }

/-- The number of a new scope. -/
def freshScope : Drafting Nat := fun d => (d.nextScope, { d with nextScope := d.nextScope + 1 })

/-- Note the symbol of a binding. -/
def bindLocal (binding : LocalRef) (symbol : SymbolId) : Drafting Unit :=
  modify fun d => { d with locals := d.locals.insert binding symbol }

/-- The symbol of a name in a container. A name declared again keeps its symbol, which gets the new
flags too. The first symbol of a name in scripts is known in all files. -/
def bindNamed (container : Container) (name : String) (flags : SymbolFlags) : Drafting SymbolId := do
  match (← get).named.get? (container, name) with
  | some symbol =>
    rebuild (·.addFlags symbol flags)
    return symbol
  | none =>
    let symbol ← build (·.addSymbol name flags)
    modify fun d => { d with named := d.named.insert (container, name) symbol }
    if let .script _ := container then
      if !(← get).globals.contains name then
        modify fun d => { d with globals := d.globals.insert name symbol }
    return symbol

/-- The symbol of a member: among the exports of its owner if it is static, else among its
members. -/
def bindMember (owner : SymbolId) (name : String) (flags : SymbolFlags) (isStatic : Bool) :
    Drafting SymbolId := do
  let b := (← get).builder
  let table := if isStatic then b.exportsOf owner else b.membersOf owner
  match table.get? name with
  | some symbol =>
    rebuild (·.addFlags symbol flags)
    return symbol
  | none =>
    let symbol ← build (·.addSymbol name flags)
    if isStatic then rebuild (·.exportAs owner name symbol)
    else rebuild (·.member owner name symbol)
    return symbol

/-- Give a symbol its documentation, unless it has some or there is none. -/
def attachDoc (symbol : SymbolId) (doc : String) : Drafting Unit := do
  if !doc.isEmpty && ((← get).builder.docOf symbol).isEmpty then rebuild (·.setDoc symbol doc)

/-- Note the type of a symbol. -/
def noteType (symbol : SymbolId) (type : TypeExpr) : Drafting Unit :=
  modify fun d => { d with symbolTypes := d.symbolTypes ++ [(symbol, type)] }

/-- Note a signature. -/
def noteSignature (s : SignatureDraft) : Drafting Unit :=
  modify fun d => { d with signatures := d.signatures ++ [s] }

/-- Note an alias. -/
def noteAlias (symbol : SymbolId) (target : AliasTarget) : Drafting Unit :=
  modify fun d => { d with aliases := d.aliases ++ [⟨symbol, target⟩] }

/-- Note the members of an enum. Those of an enum that is declared again come behind the others. -/
def noteEnum (symbol : SymbolId) (members : List (SymbolId × Option Literal)) : Drafting Unit :=
  modify fun d =>
    if d.enums.any (·.symbol == symbol) then
      { d with enums := d.enums.map fun e =>
          if e.symbol == symbol then { e with members := e.members ++ members } else e }
    else { d with enums := d.enums ++ [⟨symbol, members⟩] }

end GraphDraft

end ApiDocs
