import ApiDocs.Graph.Validity

/-!
# Failures of extraction

Walking a valid graph fails for one of two reasons, both about chains of aliases. Two more causes
exist because the walk is defined on every graph: a position may lead nowhere, and the walk has a
bound on how deep classes nest. Whoever runs extraction as a part of more may report a cause of its
own.

## Main definitions

* `ExtractError`: why a walk failed.
* `ExtractError.message`: what is said about it.
-/

namespace ApiDocs

/-- Why a walk failed. -/
inductive ExtractError where
  /-- An alias leads back to itself. The chain holds the names on the way, the repeated one last. -/
  | aliasCycle (name : String) (chain : List String)
  /-- A chain of aliases is longer than allowed. -/
  | aliasDepthExceeded (name : String) (limit : Nat)
  /-- A position leads nowhere. -/
  | dangling (arena : Arena) (index : Nat)
  /-- Classes nest deeper than there are symbols. -/
  | nestingExceeded
  /-- Any other cause, by its text. The walk has none. -/
  | other (cause : String)
  deriving DecidableEq, Repr

namespace ExtractError

/-- The chain of names as shown. -/
def chainText (chain : List String) : String := " -> ".intercalate chain

/-- What is said about a failure. -/
def message : ExtractError → String
  | aliasCycle name chain => s!"alias cycle while resolving '{name}': {chainText chain}"
  | aliasDepthExceeded name limit => s!"alias chain for '{name}' exceeds {limit} steps"
  | dangling arena index => s!"missing {arena.noun} #{index}"
  | nestingExceeded => "classes nest too deep"
  | other cause => cause

end ExtractError

end ApiDocs
