import ApiDocs.TypeScript.Parser.Basic

/-!
# Rules of the grammar

The forms of the language contain each other. Each form that another one may contain is a *rule*,
and the parser of a form is written against parsers for all rules, `Rules`. The grammar ties the
knot: its parser for a rule at nesting depth `n + 1` uses the parsers at depth `n`.

## Main definitions

* `TypeScript.Rule`, `TypeScript.Rule.Result`: rules and what they give.
* `TypeScript.Rules`: a parser for each rule.
-/

namespace ApiDocs.TypeScript

/-- The forms that contain each other. -/
inductive Rule where
  /-- A type; `conditional` tells whether it may be a conditional type. -/
  | type (conditional : Bool)
  /-- A type below unions and intersections. -/
  | operatorType (conditional : Bool)
  | typeParameters
  | interfaceMembers
  | pattern
  | parameters
  /-- An expression without commas. -/
  | assignment
  /-- Expressions between commas. -/
  | sequence
  /-- An expression with operators that bind tighter than a level. -/
  | operators (level : Nat)
  | unary
  /-- What a new instance is made of. -/
  | newTarget
  /-- What can be called and has members. -/
  | leftSide
  /-- An element of markup; `nested` tells whether it stands inside another. -/
  | markup (nested : Bool)
  | block
  | statement
  deriving DecidableEq, Repr

/-- What a rule gives. -/
@[reducible] def Rule.Result : Rule → Type
  | type _ => TypeTree
  | operatorType _ => TypeTree
  | typeParameters => List TypeParameter
  | interfaceMembers => List InterfaceMember
  | pattern => Pattern
  | parameters => Parameters
  | assignment => Expr
  | sequence => Expr
  | operators _ => Expr
  | unary => Expr
  | newTarget => Expr
  | leftSide => Expr
  | markup _ => Unit
  | block => List Statement
  | statement => Statement

/-- A parser for each rule. -/
abbrev Rules := (r : Rule) → Parser r.Result

namespace Rules

def type (rules : Rules) : Parser TypeTree := rules (.type true)
def typeBeforeCondition (rules : Rules) : Parser TypeTree := rules (.type false)
def operatorType (rules : Rules) (conditional : Bool) : Parser TypeTree :=
  rules (.operatorType conditional)
def typeParameters (rules : Rules) : Parser (List TypeParameter) := rules .typeParameters
def interfaceMembers (rules : Rules) : Parser (List InterfaceMember) := rules .interfaceMembers
def pattern (rules : Rules) : Parser Pattern := rules .pattern
def parameters (rules : Rules) : Parser Parameters := rules .parameters
def assignment (rules : Rules) : Parser Expr := rules .assignment
def sequence (rules : Rules) : Parser Expr := rules .sequence
def operators (rules : Rules) (level : Nat) : Parser Expr := rules (.operators level)
def unary (rules : Rules) : Parser Expr := rules .unary
def newTarget (rules : Rules) : Parser Expr := rules .newTarget
def leftSide (rules : Rules) : Parser Expr := rules .leftSide
def markup (rules : Rules) (nested : Bool) : Parser Unit := rules (.markup nested)
def block (rules : Rules) : Parser (List Statement) := rules .block
def statement (rules : Rules) : Parser Statement := rules .statement

/-- Type parameters, if there are any. -/
def typeParameters? (rules : Rules) : Parser (List TypeParameter) := do
  if ← Parser.atSign "<" then
    Parser.requireTypes
    rules.typeParameters
  else return []

end Rules

end ApiDocs.TypeScript
