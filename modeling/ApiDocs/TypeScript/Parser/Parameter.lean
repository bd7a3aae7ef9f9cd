import ApiDocs.Number.Layout
import ApiDocs.TypeScript.Parser.Type

/-!
# Parsing parameters

Keys of members, decorators, modifiers, the patterns that bind names, and lists of parameters.

## Main definitions

* `TypeScript.Parser.memberKey`: the name of a member.
* `TypeScript.Parser.bindingPattern`: a name or a pattern of names.
* `TypeScript.Parser.parameterList`: parameters with their parentheses.
-/

namespace ApiDocs.TypeScript.Parser

/-! ## Keys -/

/-- The name that a token gives to a member, if it is a literal. -/
def literalKey? : Token → Option String
  | .string v => some v
  | .number v => some (v.text .plain)
  | .bigint digits => some digits
  | .template text true => some text
  | _ => none

/-- A key in brackets: a literal, or a value that is computed. -/
def bracketKey (rules : Rules) : Parser MemberKey := do
  expect "["
  let literal ← attempt do
    match literalKey? (← token) with
    | some key =>
      advance
      expect "]"
      return key
    | none => fail "literal expected"
  match literal with
  | some key => return .known key
  | none =>
    discard rules.assignment
    expect "]"
    return .computed

/-- The name of a member. -/
def memberKey (rules : Rules) : Parser MemberKey := do
  match ← token with
  | .word w _ => advance; return .known w
  | .privateWord w => advance; return .privateName w
  | .punct "[" => bracketKey rules
  | .template .. => fail "name of a member expected"
  | t =>
    match literalKey? t with
    | some key => advance; return .known key
    | none => fail "name of a member expected"

/-- Can the token start the name of a member? -/
def startsKey : Token → Bool
  | .word .. | .privateWord _ | .string _ | .number _ | .bigint _ => true
  | .punct s => s == "["
  | _ => false

/-! ## Decorators and modifiers -/

/-- The arguments of a call with their parentheses. -/
def callArguments (rules : Rules) : Parser Unit := do
  expect "("
  discard <| commaList ")" do
    discard (eat "...")
    discard rules.assignment

/-- A decorator behind its sign: a name with dots or a value in parentheses, called or not. Brackets
behind it belong to what is decorated. -/
def decorator (rules : Rules) : Parser Unit := do
  if ← eat "(" then
    discard rules.sequence
    expect ")"
  else discard anyWord
  discard <| collect do
    if ← eat "." then
      discard anyWord
      return some ()
    else if ← atSign "(" then
      callArguments rules
      return some ()
    else if ← atSign "<" then
      discard (typeArguments rules)
      return some ()
    else return none

/-- Decorators, which are not kept. -/
def decorators (rules : Rules) : Parser Unit := do
  discard <| collect do
    if ← eat "@" then
      decorator rules
      return some ()
    else return none

/-- What a modifier says. -/
structure Modifiers where
  access : Option Access := none
  isStatic : Bool := false
  isReadonly : Bool := false
  isAsync : Bool := false
  isAccessor : Bool := false

/-- Add a modifier. -/
def Modifiers.add (m : Modifiers) (word : String) : Modifiers :=
  match word with
  | "public" => { m with access := some .isPublic }
  | "protected" => { m with access := some .isProtected }
  | "private" => { m with access := some .isPrivate }
  | "static" => { m with isStatic := true }
  | "readonly" => { m with isReadonly := true }
  | "async" => { m with isAsync := true }
  | "accessor" => { m with isAccessor := true }
  | _ => m

/-- Modifiers out of a list of words. A word is a modifier only if what it could modify follows, and
on the same line unless it is `static`. -/
def modifiers (words : List String) (canFollow : Token → Bool) : Parser Modifiers := do
  let found ← collect do
    match ← token with
    | .word w true =>
      let isModifier ← aheadHolds do
        advance
        return canFollow (← token) && (w == "static" || !(← lineBreak))
      if words.contains w && isModifier then
        advance
        return some w
      else return none
    | _ => return none
  return found.foldl Modifiers.add {}

/-! ## Patterns -/

/-- A default value, if there is one. -/
def default? (rules : Rules) : Parser (Option Expr) := do
  if ← eat "=" then return some (← rules.assignment)
  else return none

/-- A property of a pattern, with the names that it binds. -/
def patternProperty (rules : Rules) : Parser (List String) := do
  if ← eat "..." then return (← rules.pattern).names
  let shorthand ← aheadHolds do
    discard name
    return !(← atSign ":")
  if shorthand then
    let n ← name
    discard (default? rules)
    return [n]
  else
    discard (memberKey rules)
    expect ":"
    let p ← rules.pattern
    discard (default? rules)
    return p.names

/-- An element of a pattern, or a hole. -/
def patternElement (rules : Rules) : Parser (List String) := do
  if ← atSign "," then return []
  discard (eat "...")
  let p ← rules.pattern
  discard (default? rules)
  return p.names

/-- A name or a pattern of names. -/
def bindingPattern (rules : Rules) : Parser Pattern := do
  if ← eat "\x7b" then
    return ⟨none, (← commaList "\x7d" (patternProperty rules)).flatten⟩
  else if ← eat "[" then
    return ⟨none, (← commaList "]" (patternElement rules)).flatten⟩
  else
    let n ← name
    return ⟨some n, [n]⟩

/-! ## Parameters -/

/-- An entry of a list of parameters. -/
inductive ParameterEntry where
  | single (p : Parameter)
  | rest (p : RestParameter)
  /-- The type of the object that a function is called on. -/
  | this

/-- The words that may stand before a parameter. -/
def parameterModifiers : List String := ["public", "private", "protected", "readonly", "override"]

/-- Can the token follow a modifier of a parameter? -/
def startsParameter : Token → Bool
  | .word .. => true
  | .punct s => ["[", "\x7b", "..."].contains s
  | _ => false

/-- An entry of a list of parameters. -/
def parameterEntry (rules : Rules) : Parser ParameterEntry := do
  let start ← here
  decorators rules
  let m ← modifiers (if ← typed then parameterModifiers else []) startsParameter
  let restStart ← here
  if ← eat "..." then
    let pattern ← rules.pattern
    let type ← annotation? rules
    return .rest { pattern, type, span := ← spanFrom restStart }
  else if ← atWord "this" then
    requireTypes
    advance
    discard (annotation? rules)
    return .this
  else
    let pattern ← rules.pattern
    let isOptional ← eat "?"
    if isOptional then requireTypes
    let type ← annotation? rules
    let default ← default? rules
    return .single {
      pattern, isOptional, type, default
      span := ← spanFrom start
      access := m.access
      isReadonly := m.isReadonly }

/-- The parameters of a list of entries; nothing may follow the one for all further arguments. -/
def parametersOf : List ParameterEntry → Option Parameters
  | [] => some ⟨[], none⟩
  | [.rest p] => some ⟨[], some p⟩
  | .rest _ :: _ => none
  | .this :: rest => parametersOf rest
  | .single p :: rest => (parametersOf rest).map fun ps => { ps with items := p :: ps.items }

/-- Parameters with their parentheses. -/
def parameterList (rules : Rules) : Parser Parameters := do
  expect "("
  let entries ← commaList ")" (parameterEntry rules)
  match parametersOf entries with
  | some ps => return ps
  | none => fail "the parameter for further arguments is not the last"

/-! ## Functions -/

/-- The names that a body declares, if a body follows. -/
def body? (rules : Rules) : Parser (Option (List Bound)) := do
  if ← atSign "\x7b" then return some ((← rules.block).flatMap Statement.bound)
  else return none

/-- A function from its type parameters to its result type. -/
def signature (rules : Rules) (name : Option String) (isAsync : Bool) : Parser FunctionTree := do
  let typeParameters ← rules.typeParameters?
  let parameters ← rules.parameters
  let result ← resultAnnotation? rules
  return { name, typeParameters, parameters, result, body := none, isAsync, isDeclared := false }

/-- A function from its type parameters to its body. A function without a body ends like a
statement. -/
def functionRest (rules : Rules) (name : Option String) (isAsync : Bool) : Parser FunctionTree := do
  let f ← signature rules name isAsync
  let body ← body? rules
  if body.isNone then
    requireTypes
    semicolon
  return { f with body }

end ApiDocs.TypeScript.Parser
