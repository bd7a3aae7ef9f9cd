import ApiDocs.Extract.Describe

/-!
# Following aliases

An export may be an alias of a symbol that is an alias itself. The chain is followed until a symbol
that is no alias. It may also end at an alias without a target, come back to a symbol it already
passed, or run longer than allowed.

## Main definitions

* `SymbolGraph.followAlias`: the walk, with the hops that are left and the aliases passed.
* `SymbolGraph.resolveAlias`: the walk from its start.
-/

namespace ApiDocs.SymbolGraph

variable (g : SymbolGraph)

/-- Follow the chain from `current`, with `hops` steps left of `limit`. The aliases passed are in
`passed`, the last one first. The result is empty when an alias has no target. -/
def followAlias (name : String) (limit : Nat) :
    Nat → List SymbolId → SymbolId → Except ExtractError (Option SymbolId)
  | hops, passed, current => do
    let symbol ← g.getSymbol current
    if !symbol.isAlias then return some current
    match hops with
    | 0 => throw (.aliasDepthExceeded name limit)
    | hops + 1 =>
      match symbol.aliasOf with
      | none => return none
      | some target =>
        let passed := current :: passed
        if target ∈ passed then
          let chain ← (target :: passed).reverse.mapM fun id => return (← g.getSymbol id).name
          throw (.aliasCycle name chain)
        else followAlias name limit hops passed target

/-- The symbol that `id` stands for, when at most `limit` aliases may be passed. -/
def resolveAlias (limit : Nat) (name : String) (id : SymbolId) :
    Except ExtractError (Option SymbolId) :=
  g.followAlias name limit limit [] id

end ApiDocs.SymbolGraph
