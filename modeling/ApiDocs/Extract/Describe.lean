import ApiDocs.Extract.Error
import ApiDocs.Extract.RefTable
import ApiDocs.Extract.TypeShape

/-!
# Describing types

A type is described by its shape, and the types inside it in turn: the element of an array, the
arguments of a reference, the members of a union or intersection. Declared types are not expanded
but become references, which keeps classes that mention each other finite. Type graphs may still
be cyclic, so below a fixed number of levels a type is given by its display.

## Main definitions

* `SymbolGraph.describeWithin`: a type described to a number of levels.
* `SymbolGraph.describe`: a type described to `describedLevels` levels.
-/

namespace ApiDocs

/-- A computation over the table of references that may fail. -/
abbrev Describing := StateT (RefTable SymbolId) (Except ExtractError)

/-- How many levels of a type are described. -/
def describedLevels : Nat := 65

namespace SymbolGraph

variable (g : SymbolGraph)

/-- The symbol at a position, or the failure that there is none. -/
def getSymbol (id : SymbolId) : Except ExtractError Symbol :=
  match g.symbol? id with
  | some s => .ok s
  | none => .error (.dangling .symbols id.index)

/-- The type at a position, or the failure that there is none. -/
def getType (id : TypeId) : Except ExtractError TypeNode :=
  match g.type? id with
  | some t => .ok t
  | none => .error (.dangling .types id.index)

/-- The signature at a position, or the failure that there is none. -/
def getSignature (id : SignatureId) : Except ExtractError Signature :=
  match g.signature? id with
  | some s => .ok s
  | none => .error (.dangling .signatures id.index)

/-- The reference of a symbol. -/
def referTo (id : SymbolId) : Describing RefId := do
  let symbol ← g.getSymbol id
  modifyGet (·.request id symbol.name none)

/-- Describe a type to the given number of levels. -/
def describeWithin : Nat → TypeId → Describing TypeDoc
  | 0, id => do
    let t ← g.getType id
    return .unsupported .other t.display
  | levels + 1, id => do
    let t ← g.getType id
    match t.shape with
    | .enumUnion symbol => return .ref (← g.referTo symbol) []
    | .enumLiteral primitive value => return .literal primitive value
    | .simple => return .name t.display
    | .array element => return .arrayOf (← describeWithin levels element)
    | .reference symbol arguments =>
      let target ← g.referTo symbol
      return .ref target (← arguments.mapM (describeWithin levels))
    | .tuple => return .unsupported .tuple t.display
    | .union members => return .unionOf (← members.mapM (describeWithin levels))
    | .intersection members => return .intersectionOf (← members.mapM (describeWithin levels))
    | .unsupported => return .unsupported .other t.display

/-- Describe a type. -/
def describe (id : TypeId) : Describing TypeDoc := g.describeWithin describedLevels id

end SymbolGraph

end ApiDocs
