import ApiDocs.Binding.DocComment
import ApiDocs.Binding.Draft
import ApiDocs.Binding.LineIndex

/-!
# Sites in files

A site is a place in a file: the file, the scopes around the place, and the class or interface it is
in. At a site, written types become type expressions, and initializers give types.

## Main definitions

* `Site`: a place in a file.
* `Site.typeExpr`: a written type as an expression.
* `Site.infer?`: the type that an initializer gives.
-/

namespace ApiDocs

open TypeScript (Span Bound TypeTree EntityName Expr)

/-- A place in a file. -/
structure Site where
  /-- The number of the file. -/
  file : Nat
  path : String
  /-- What the names of the file mean. -/
  scoping : Scoping
  lines : LineIndex
  /-- Documentation comments by the offset of the token that they document. -/
  docs : List (Nat × String)
  /-- The scopes around the place, from the inside out. -/
  frames : List ScopeFrame
  /-- The class or interface that the place is in. -/
  owner : Option SymbolId
  deriving Inhabited

namespace Site

variable (site : Site)

/-- The place inside a further scope. -/
def inside (frame : ScopeFrame) : Site := { site with frames := frame :: site.frames }

/-- The place inside a class or interface. -/
def within (owner : SymbolId) : Site := { site with owner := some owner }

/-- The binding of a name that is declared in the innermost scope. -/
def localRef? (name : String) : Option LocalRef :=
  (site.scoping.declared? site.frames name).map fun (scope, name) => ⟨site.file, scope, name⟩

/-- The comment that documents what starts at an offset. -/
def docAt (offset : Nat) : DocComment :=
  match site.docs.find? (·.1 == offset) with
  | some (_, raw) => DocComment.parse raw
  | none => {}

/-- The lines of a stretch. -/
def pos (span : Span) : SourcePos := site.lines.pos site.path span

/-- What a name with dots refers to. -/
def refer (use : NameUse) (name : EntityName) : NameRef :=
  site.scoping.referEntity use site.file site.frames name

/-! ## Types -/

mutual

/-- A written type as an expression. -/
def typeExpr : TypeTree → TypeExpr
  | .keyword k => .keyword k
  | .text v => .text v
  | .number v => .number v
  | .boolean v => .boolean v
  | .reference name written arguments =>
    .reference written (site.refer .asType name) (typeExprs arguments)
  | .array e => .array (typeExpr e)
  | .union ts => .union (typeExprs ts)
  | .intersection ts => .intersection (typeExprs ts)
  | .tuple elements => .tuple (elements.map .verbatim)
  | .this => .this site.owner
  | .verbatim w => .verbatim w

/-- Written types as expressions. -/
def typeExprs : List TypeTree → List TypeExpr
  | [] => []
  | t :: ts => typeExpr t :: typeExprs ts

end

/-! ## Initializers -/

/-- The type of a literal as it is kept: with its value, or widened. -/
def keep (literal : Bool) (t : TypeExpr) : TypeExpr := if literal then t else t.widened

mutual

/-- The type that an initializer gives, if it is understood. Literals keep their value only where
`literal` is set, as for variables that cannot change. -/
def infer? (literal : Bool) : Expr → Option TypeExpr
  | .text v => some (keep literal (.text v))
  | .number v => some (keep literal (.number v))
  | .negative v => some (keep literal (.number v.neg))
  | .boolean v => some (keep literal (.boolean v))
  | .null => some (.keyword .null)
  | .template => some (.keyword .string)
  | .array elements => some (.array (TypeExpr.unionOf (inferAll elements)))
  | .instanceOf name => some (.reference name (site.refer .asValue (.name name)) [])
  | .arrow parameters result => some (.verbatim (parameters ++ " => " ++ result.getD "any"))
  | .parens e => infer? literal e
  | .cast t => some (site.typeExpr t)
  | .name _ => none
  | .other => none

/-- The types that the elements of an array give. -/
def inferAll : List Expr → List TypeExpr
  | [] => []
  | e :: es => (infer? false e).toList ++ inferAll es

end

end Site

end ApiDocs
