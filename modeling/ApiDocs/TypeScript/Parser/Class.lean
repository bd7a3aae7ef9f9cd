import ApiDocs.TypeScript.Parser.Parameter

/-!
# Parsing classes and interfaces

## Main definitions

* `TypeScript.Parser.interfaceBody`: the members of an interface or object type.
* `TypeScript.Parser.classRest`: a class behind the word `class`.
* `TypeScript.Parser.interfaceRest`: an interface behind the word `interface`.
-/

namespace ApiDocs.TypeScript.Parser

/-- Can the token start the name of a member, or a generator method? -/
def startsMember : Token → Bool
  | .punct "*" => true
  | t => startsKey t

/-- Does an index signature start at the next bracket? -/
def startsIndex : Parser Bool :=
  aheadHolds do
    expect "["
    discard anyWord
    atSign ":"

/-- The end of a member of an interface. -/
def memberEnd : Parser Unit := do
  if ← eat "," then return
  semicolon

/-- An index signature behind its modifiers. -/
def indexSignature (rules : Rules) (start : Cursor) (m : Modifiers) (finish : Parser Unit) :
    Parser IndexTree := do
  expect "["
  let keys ← commaList "]" do
    discard anyWord
    annotation? rules
  match ← annotation? rules with
  | some value =>
    finish
    return {
      span := ← spanFrom start
      isStatic := m.isStatic
      isReadonly := m.isReadonly
      key := keys.head?.join
      value }
  | none => fail "type expected"

/-- The word `get` or `set` before the name of a member. -/
def accessorKind? : Parser (Option MethodKind) := do
  let isAccessor ← aheadHolds do
    let w ← anyWord
    return (w == "get" || w == "set") && startsKey (← token)
  if !isAccessor then return none
  if ← eatWord "get" then return some .getter
  advance
  return some .setter

/-! ## Interfaces -/

/-- A property or method of an interface, behind its modifiers. -/
def interfaceProperty (rules : Rules) (start : Cursor) (m : Modifiers) : Parser InterfaceMember := do
  let accessor ← accessorKind?
  let key ← memberKey rules
  let isOptional ← eat "?"
  if accessor.isSome || (← atOneOf ["(", "<"]) then
    let function ← signature rules none false
    memberEnd
    return .method {
      key, isOptional, function
      span := ← spanFrom start
      kind := accessor.getD .method
      isStatic := false
      access := none }
  else
    let type ← annotation? rules
    memberEnd
    return .property {
      key, isOptional, type
      span := ← spanFrom start
      isStatic := false
      isReadonly := m.isReadonly
      access := none
      value := none }

/-- A member of an interface. -/
def interfaceMember (rules : Rules) : Parser InterfaceMember := do
  let start ← here
  if ← atOneOf ["(", "<"] then
    discard (signature rules none false)
    memberEnd
    return .call
  let isConstruct ← aheadHolds do
    expectWord "new"
    atOneOf ["(", "<"]
  if isConstruct then
    advance
    let f ← signature rules none false
    memberEnd
    return .construct (← spanFrom start) f
  let m ← modifiers ["readonly"] startsKey
  if ← startsIndex then return .index (← indexSignature rules start m memberEnd)
  else interfaceProperty rules start m

/-- The members of an interface or object type, with their braces. -/
def interfaceBody (rules : Rules) : Parser (List InterfaceMember) := do
  expect "\x7b"
  let members ← collect do
    if ← atSign "\x7d" then return none
    else return some (← interfaceMember rules)
  expect "\x7d"
  return members

/-- A name with type arguments, as it stands in a clause on what is extended or implemented. -/
def heritageName (rules : Rules) : Parser EntityName := do
  let n ← entityName
  discard (typeArguments? rules)
  return n

/-- An interface behind the word `interface`. -/
def interfaceRest (rules : Rules) (isDeclared : Bool) : Parser InterfaceTree := do
  let n ← name
  let typeParameters ← rules.typeParameters?
  let bases ← if ← eatWord "extends" then commaItems (heritageName rules) else pure []
  let members ← rules.interfaceMembers
  return { name := n, typeParameters, bases, members, isDeclared }

/-! ## Classes -/

/-- The words that may stand before a member of a class. -/
def memberModifiers (typed : Bool) : List String :=
  ["static", "async", "accessor"] ++
    if typed then
      ["public", "private", "protected", "abstract", "override", "readonly", "declare"]
    else []

/-- A method behind its key. -/
def methodRest (rules : Rules) (start : Cursor) (m : Modifiers) (kind : MethodKind)
    (key : MemberKey) (isOptional : Bool) : Parser ClassMember := do
  let function ← functionRest rules none m.isAsync
  return .method {
    kind, key, isOptional, function
    span := ← spanFrom start
    isStatic := m.isStatic
    access := m.access }

/-- A property behind its key. -/
def propertyRest (rules : Rules) (start : Cursor) (m : Modifiers) (key : MemberKey)
    (isOptional : Bool) : Parser ClassMember := do
  let type ← annotation? rules
  let value ← default? rules
  semicolon
  if m.isAccessor then return .other
  return .property {
    key, isOptional, type, value
    span := ← spanFrom start
    isStatic := m.isStatic
    isReadonly := m.isReadonly
    access := m.access }

/-- A member of a class. -/
def classMember (rules : Rules) : Parser ClassMember := do
  if ← eat ";" then return .other
  let start ← here
  decorators rules
  let isBlock ← aheadHolds do
    expectWord "static"
    atSign "\x7b"
  if isBlock then
    advance
    discard rules.block
    return .other
  let m ← modifiers (memberModifiers (← typed)) startsMember
  if (← startsIndex) && (← typed) then return .index (← indexSignature rules start m semicolon)
  let isGenerator ← eat "*"
  let accessor ← if isGenerator then pure none else accessorKind?
  let bracketed ← atSign "["
  let key ← memberKey rules
  let marked ← atOneOf ["?", "!"]
  let isOptional ← atSign "?"
  if marked then
    requireTypes
    advance
  if accessor.isSome || isGenerator || (← atOneOf ["(", "<"]) then
    let isConstructor := key == .known "constructor" && !bracketed && !m.isStatic
    let kind := accessor.getD (if isConstructor then .construct else .method)
    methodRest rules start m kind key isOptional
  else propertyRest rules start m key isOptional

/-- What a class extends: a name, or any other value, of which nothing is kept. -/
def baseClass (rules : Rules) : Parser (Option EntityName) := do
  let named ← attempt do
    if !(← atName) then fail "name expected"
    let n ← heritageName rules
    if (← atSign "\x7b") || (← atWord "implements") then return n
    else fail "no name"
  match named with
  | some n => return some n
  | none =>
    discard rules.leftSide
    discard (typeArguments? rules)
    return none

/-- A class behind the word `class`. -/
def classRest (rules : Rules) : Parser ClassTree := do
  let unnamed ← aheadHolds do
    expectWord "implements"
    return (← word?).isSome && !(← atWord "extends") && !(← atWord "implements")
  let n ← if (← atName) && !unnamed then some <$> name else pure none
  let typeParameters ← rules.typeParameters?
  let base ← if ← eatWord "extends" then baseClass rules else pure none
  let implemented ←
    if ← atWord "implements" then
      requireTypes
      advance
      commaItems (heritageName rules)
    else pure []
  expect "\x7b"
  let members ← collect do
    if ← atSign "\x7d" then return none
    else return some (← classMember rules)
  expect "\x7d"
  return {
    name := n, typeParameters, base, implemented, members
    isAbstract := false
    isDeclared := false }

end ApiDocs.TypeScript.Parser
