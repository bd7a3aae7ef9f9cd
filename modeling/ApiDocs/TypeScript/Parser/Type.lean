import ApiDocs.TypeScript.Parser.Rule

/-!
# Parsing types

Unions hold intersections, intersections hold types with a word in front (`keyof`, `readonly`, …),
and those hold types with brackets behind. Names, keywords, literals, arrays, unions and
intersections become trees; other types are kept as written.

## Main definitions

* `TypeScript.Parser.fullType`: a type.
* `TypeScript.Parser.annotation?`: a type behind a colon.
* `TypeScript.Parser.resultAnnotation?`: a result type, which may be a predicate.
* `TypeScript.Parser.typeArguments`, `TypeScript.Parser.typeParameterList`.
-/

namespace ApiDocs.TypeScript.Parser

/-- A type that is kept as written. -/
def verbatim (start : Cursor) (p : Parser Unit) : Parser TypeTree := do
  p
  return .verbatim (← textFrom start)

/-! ## Names, arguments, annotations -/

/-- A name with dots. -/
def entityName : Parser EntityName := do
  let first ← anyWord
  let parts ← collect do
    if ← eat "." then return some (← anyWord)
    else return none
  return parts.foldl EntityName.member (.name first)

/-- Type arguments with their brackets. -/
def typeArguments (rules : Rules) : Parser (List TypeTree) := do
  expect "<"
  if ← atSign ">" then fail "type expected"
  commaList ">" rules.type

/-- Type arguments, if they follow on the same line. -/
def typeArguments? (rules : Rules) : Parser (List TypeTree) := do
  if (← atSign "<") && !(← lineBreak) then typeArguments rules
  else return []

/-- A type behind a colon. -/
def annotation? (rules : Rules) : Parser (Option TypeTree) := do
  if ← atSign ":" then
    requireTypes
    advance
    return some (← rules.type)
  else return none

/-- A result type: a type, or a predicate on a parameter. -/
def resultType (rules : Rules) : Parser TypeTree := do
  let start ← here
  let asserts ← aheadHolds do
    expectWord "asserts"
    return (← word?).isSome && !(← lineBreak) && !(← atWord "is")
  if asserts then
    verbatim start do
      advance
      advance
      if ← eatWord "is" then discard rules.type
  else
    let predicate ← aheadHolds do
      discard anyWord
      return (← atWord "is") && !(← lineBreak)
    if predicate then
      verbatim start do
        advance
        advance
        discard rules.type
    else rules.type

/-- A result type behind a colon. -/
def resultAnnotation? (rules : Rules) : Parser (Option TypeTree) := do
  if ← atSign ":" then
    requireTypes
    advance
    return some (← resultType rules)
  else return none

/-- A type parameter with its bound and its default. -/
def typeParameter (rules : Rules) : Parser TypeParameter := do
  let start ← here
  let _ ← collect do
    let isModifier := (← atWord "const") || (← atWord "in") || (← atWord "out")
    if isModifier && (← aheadHolds do advance; return (← word?).isSome && !(← atWord "extends")) then
      advance
      return some ()
    else return none
  let n ← name
  if ← eatWord "extends" then discard rules.type
  if ← eat "=" then discard rules.type
  return ⟨n, ← spanFrom start⟩

/-- Type parameters with their brackets. -/
def typeParameterList (rules : Rules) : Parser (List TypeParameter) := do
  expect "<"
  if ← atSign ">" then fail "type parameter expected"
  commaList ">" (typeParameter rules)

/-! ## Function types -/

/-- Do the parameters of a function type start at the next parenthesis? -/
def startsParameters (rules : Rules) : Parser Bool :=
  aheadHolds do
    expect "("
    if ← atOneOf [")", "..."] then return true
    if ← atOneOf ["[", "\x7b"] then discard rules.pattern
    else
      discard anyWord
      if (← word?).isSome then advance
    if ← atOneOf [":", ",", "?", "="] then return true
    if ← eat ")" then atSign "=>" else return false

/-- Does a function or constructor type start here? -/
def startsFunctionType (rules : Rules) : Parser Bool := do
  if (← atSign "<") || (← atWord "new") then return true
  if ← atWord "abstract" then
    aheadHolds do
      advance
      atWord "new"
  else startsParameters rules

/-- A function or constructor type. -/
def functionType (rules : Rules) : Parser Unit := do
  discard (eatWord "abstract")
  discard (eatWord "new")
  discard rules.typeParameters?
  discard rules.parameters
  expect "=>"
  discard (resultType rules)

/-! ## Types without operators -/

/-- A named type with its arguments. -/
def typeReference (rules : Rules) : Parser TypeTree := do
  let start ← here
  let n ← entityName
  let written ← textFrom start
  return .reference n written (← typeArguments? rules)

/-- A type taken from a module, behind the word `import`. -/
def importedType (rules : Rules) : Parser Unit := do
  expectWord "import"
  expect "("
  discard rules.type
  if ← eat "," then
    if !(← atSign ")") then discard rules.assignment
    discard (eat ",")
  expect ")"
  let _ ← collect do
    if ← eat "." then return some (← anyWord)
    else return none
  discard (typeArguments? rules)

/-- The type of a value, behind the word `typeof`. -/
def typeOfValue (rules : Rules) : Parser Unit := do
  expectWord "typeof"
  if ← atWord "import" then importedType rules
  else
    discard entityName
    discard (typeArguments? rules)

/-- Does a mapped type start at the next brace? -/
def startsMappedType : Parser Bool :=
  aheadHolds do
    expect "\x7b"
    if ← atOneOf ["+", "-"] then
      advance
      return ← atWord "readonly"
    discard (eatWord "readonly")
    expect "["
    discard anyWord
    atWord "in"

/-- A mapped type. -/
def mappedType (rules : Rules) : Parser Unit := do
  expect "\x7b"
  if ← atOneOf ["+", "-"] then advance
  discard (eatWord "readonly")
  expect "["
  discard anyWord
  expectWord "in"
  discard rules.type
  if ← eatWord "as" then discard rules.type
  expect "]"
  if ← atOneOf ["+", "-"] then
    advance
    expect "?"
  else discard (eat "?")
  if ← eat ":" then discard rules.type
  if ← atSign "," then advance else semicolon
  expect "\x7d"

/-- An element of a tuple: a type with or without a name, optional or for all further elements. -/
def tupleElement (rules : Rules) : Parser String := do
  let start ← here
  discard (eat "...")
  let named ← aheadHolds do
    discard anyWord
    discard (eat "?")
    atSign ":"
  if named then
    advance
    discard (eat "?")
    expect ":"
    discard rules.type
  else
    discard rules.type
    discard (eat "?")
  textFrom start

/-- A number behind a minus sign. -/
def negativeLiteral (start : Cursor) : Parser TypeTree := do
  expect "-"
  match ← token with
  | .number v => advance; return .number v.neg
  | .bigint _ => verbatim start advance
  | _ => fail "number expected"

/-- A type without operators and without brackets behind it. -/
def plainType (rules : Rules) : Parser TypeTree := do
  let start ← here
  match ← token with
  | .word "this" true => advance; return .this
  | .word "true" true => advance; return .boolean true
  | .word "false" true => advance; return .boolean false
  | .word "typeof" true => verbatim start (typeOfValue rules)
  | .word "import" true => verbatim start (importedType rules)
  | .word w _ =>
    match KeywordType.ofWord? w with
    | some k =>
      if ← aheadHolds do advance; atSign "." then typeReference rules
      else
        advance
        return .keyword k
    | none => typeReference rules
  | .string v => advance; return .text v
  | .number v => advance; return .number v
  | .bigint _ => verbatim start advance
  | .template .. => verbatim start (template (discard rules.type))
  | .punct "-" => negativeLiteral start
  | .punct "\x7b" =>
    verbatim start do
      if ← startsMappedType then mappedType rules
      else discard rules.interfaceMembers
  | .punct "[" =>
    advance
    return .tuple (← commaList "]" (tupleElement rules))
  | .punct "(" =>
    advance
    let t ← rules.type
    expect ")"
    return t
  | _ => fail "type expected"

/-! ## Types with operators -/

/-- A type with brackets behind it: arrays, and members of types. -/
def bracketType (rules : Rules) : Parser TypeTree := do
  let start ← here
  let first ← plainType rules
  let brackets ← collect do
    if (← atSign "[") && !(← lineBreak) then
      advance
      if ← eat "]" then return some none
      discard rules.type
      expect "]"
      return some (some (← textFrom start))
    else return none
  return brackets.foldl (fun t bracket =>
    match bracket with
    | none => .array t
    | some written => .verbatim written) first

/-- Is a word next that makes another type of the type behind it? -/
def startsOperatorType : Parser Bool := do
  return (← atWord "keyof") || (← atWord "unique") || (← atWord "readonly")

/-- A type with a word in front. -/
def wordedType (rules : Rules) (conditional : Bool) : Parser TypeTree := do
  let start ← here
  if ← startsOperatorType then
    verbatim start do
      advance
      discard (rules.operatorType conditional)
  else if ← atWord "infer" then
    verbatim start do
      advance
      discard name
      discard <| attempt do
        expectWord "extends"
        discard rules.typeBeforeCondition
        if conditional && (← atSign "?") then fail "this is the condition of a conditional type"
  else bracketType rules

/-- Members between operators, with an operator before the first allowed. -/
def joinedType (operator : String) (join : List TypeTree → TypeTree) (member : Parser TypeTree) :
    Parser TypeTree := do
  let leading ← eat operator
  let first ← member
  let more ← collect do
    if ← eat operator then return some (← member)
    else return none
  if leading || !more.isEmpty then return join (first :: more)
  else return first

/-- A union of intersections. -/
def unionType (rules : Rules) (conditional : Bool) : Parser TypeTree :=
  joinedType "|" .union (joinedType "&" .intersection (rules.operatorType conditional))

/-- **A type.** -/
def fullType (rules : Rules) (conditional : Bool) : Parser TypeTree := do
  let start ← here
  if ← startsFunctionType rules then verbatim start (functionType rules)
  else
    let t ← unionType rules conditional
    if conditional && (← atWord "extends") && !(← lineBreak) then
      verbatim start do
        advance
        discard rules.typeBeforeCondition
        expect "?"
        discard rules.type
        expect ":"
        discard rules.type
    else return t

end ApiDocs.TypeScript.Parser
