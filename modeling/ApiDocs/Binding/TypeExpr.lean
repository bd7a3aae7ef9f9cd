import ApiDocs.Binding.Scope

/-!
# Type expressions

A type as a source gives it, with its names referred to bindings but not yet resolved: what a name
refers to may be declared in a file that comes later.

## Main definitions

* `TypeExpr`: a type expression.
* `TypeExpr.widened`: the type that a variable gets from a literal.
* `TypeExpr.unionOf`: the type of the elements of an array.
-/

namespace ApiDocs

open TypeScript (KeywordType)

/-- A type expression. -/
inductive TypeExpr where
  | keyword (k : KeywordType)
  | text (value : String)
  | number (value : Binary64)
  | boolean (value : Bool)
  | reference (name : String) (target : NameRef) (arguments : List TypeExpr)
  /-- The type of the instances of a class or interface. -/
  | instanceOf (symbol : SymbolId)
  | array (element : TypeExpr)
  | union (members : List TypeExpr)
  | intersection (members : List TypeExpr)
  | tuple (elements : List TypeExpr)
  /-- The type `this` in the class or interface around it. -/
  | this (owner : Option SymbolId)
  /-- A type that is known as written only. -/
  | verbatim (written : String)
  deriving Repr, Inhabited

namespace TypeExpr

/-- The type `any`. -/
def any : TypeExpr := .keyword .any

/-- The type of a variable that starts with a value of this type and may change. -/
def widened : TypeExpr → TypeExpr
  | .text _ => .keyword .string
  | .number _ => .keyword .number
  | .boolean _ => .keyword .boolean
  | t => t

mutual

/-- Are the expressions the same? Numbers are compared by value. -/
def same : TypeExpr → TypeExpr → Bool
  | .keyword j, .keyword k => j == k
  | .text v, .text w => v == w
  | .number v, .number w => v.equals w
  | .boolean v, .boolean w => v == w
  | .reference n t args, .reference m u args' => n == m && t == u && sameAll args args'
  | .instanceOf s, .instanceOf t => s == t
  | .array e, .array f => same e f
  | .union ts, .union us => sameAll ts us
  | .intersection ts, .intersection us => sameAll ts us
  | .tuple ts, .tuple us => sameAll ts us
  | .this s, .this t => s == t
  | .verbatim v, .verbatim w => v == w
  | _, _ => false

/-- Are the expressions the same, one by one? -/
def sameAll : List TypeExpr → List TypeExpr → Bool
  | [], [] => true
  | t :: ts, u :: us => same t u && sameAll ts us
  | _, _ => false

end

/-- The expressions without repetitions, each where it first stands. -/
def distinct (ts : List TypeExpr) : List TypeExpr :=
  ts.foldl (fun kept t => if kept.any (same · t) then kept else kept ++ [t]) []

/-- The type of what has one of several types: `any` for none, and no union for one. -/
def unionOf (ts : List TypeExpr) : TypeExpr :=
  match distinct ts with
  | [] => any
  | [t] => t
  | ts => .union ts

end TypeExpr

end ApiDocs
