import ApiDocs.Graph.Basic

/-!
# Self-contained graphs

A graph is valid when every position it mentions is inside the list it refers to. The mentions are
listed once, in a fixed order, each with its owner; checking a graph finds the first mention that
leads nowhere, and validity says that there is none.

## Main definitions

* `Mention`: a position and who mentions it.
* `SymbolGraph.mentions`: all mentions of a graph.
* `SymbolGraph.dangling?`: the first mention that leads nowhere.
* `SymbolGraph.Valid`: no mention leads nowhere.
-/

namespace ApiDocs

/-- The lists that positions refer to: those of a graph, and those of a documentation. -/
inductive Arena where
  | symbols
  | types
  | signatures
  | declarations
  | classes
  | enums
  | references
  deriving DecidableEq, Repr

/-- What one entry of the list is called. -/
def Arena.noun : Arena → String
  | .symbols => "symbol"
  | .types => "type"
  | .signatures => "signature"
  | .declarations => "declaration"
  | .classes => "class"
  | .enums => "enum"
  | .references => "reference"

/-- A position, the list it refers to with the length of that list, and who mentions it. -/
structure Mention where
  owner : String
  arena : Arena
  index : Nat
  size : Nat
  deriving DecidableEq, Repr

/-- Does the mention lead to an entry? -/
def Mention.inRange (m : Mention) : Bool := m.index < m.size

/-- What is said of a mention that leads nowhere. -/
def Mention.complaint (m : Mention) : String :=
  s!"{m.owner} refers to missing {m.arena.noun} #{m.index}"

namespace SymbolGraph

variable (g : SymbolGraph)

/-- Mention of a symbol. -/
def mentionSymbol (owner : String) (id : SymbolId) : Mention :=
  ⟨owner, .symbols, id.index, g.symbols.size⟩

/-- Mention of a type. -/
def mentionType (owner : String) (id : TypeId) : Mention :=
  ⟨owner, .types, id.index, g.types.size⟩

/-- Mention of a signature. -/
def mentionSignature (owner : String) (id : SignatureId) : Mention :=
  ⟨owner, .signatures, id.index, g.signatures.size⟩

/-- The mentions of a file. -/
def fileMentions (file : SourceFile) : List Mention :=
  file.symbol.toList.map (g.mentionSymbol file.path)

/-- The mentions of a declaration. -/
def declarationMentions (owner : String) (d : Declaration) : List Mention :=
  d.heritage.map (g.mentionSymbol owner) ++
    match d.index with
    | some index => (index.key.toList ++ index.value.toList).map (g.mentionType owner)
    | none => []

/-- The mentions of a symbol. -/
def symbolMentions (s : Symbol) : List Mention :=
  (s.exports.values ++ s.members.values).map (g.mentionSymbol s.name) ++
    s.aliasOf.toList.map (g.mentionSymbol s.name) ++
    s.typeId.toList.map (g.mentionType s.name) ++
    s.valueDeclaration.toList.map
      (fun i => ⟨s.name, .declarations, i, s.declarations.length⟩) ++
    s.declarations.flatMap (g.declarationMentions s.name)

/-- The mentions of a type. -/
def typeMentions (t : TypeNode) : List Mention :=
  t.symbol.toList.map (g.mentionSymbol t.display) ++
    (t.typeArguments ++ t.constituents).map (g.mentionType t.display) ++
    (t.callSignatures ++ t.constructSignatures).map (g.mentionSignature t.display)

/-- The mentions of a signature. -/
def signatureMentions (s : Signature) : List Mention :=
  g.mentionType "signature" s.returnType :: s.parameters.map (g.mentionSymbol "signature")

/-- Every mention of the graph: files, then symbols, types and signatures. -/
def mentions : List Mention :=
  g.files.flatMap g.fileMentions ++
    g.symbols.toList.flatMap g.symbolMentions ++
    g.types.toList.flatMap g.typeMentions ++
    g.signatures.toList.flatMap g.signatureMentions

/-- The first mention that leads nowhere. -/
def dangling? : Option Mention := g.mentions.find? (!·.inRange)

/-- No mention leads nowhere. -/
def Valid : Prop := ∀ m ∈ g.mentions, m.inRange = true

theorem valid_iff_dangling?_eq_none : g.Valid ↔ g.dangling? = none := by
  simp [Valid, dangling?, List.find?_eq_none]

instance : Decidable g.Valid := decidable_of_iff _ (valid_iff_dangling?_eq_none g).symm

end SymbolGraph

end ApiDocs
