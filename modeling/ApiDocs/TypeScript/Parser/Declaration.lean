import ApiDocs.TypeScript.Parser.Expression

/-!
# Parsing declarations

Variables, functions, classes, interfaces, type aliases, enums and namespaces, with the word
`declare` before them or not. Most of their first words are also names, so a declaration starts only
where what it needs follows on the same line.

## Main definitions

* `TypeScript.Parser.declaration?`: a declaration, if one starts here.
-/

namespace ApiDocs.TypeScript.Parser

/-! ## Variables -/

/-- A variable with its type and its value. `needsValue` tells whether a variable without a value is
refused; a pattern without one is, too. -/
def variableTree (rules : Rules) (needsValue : Bool) : Parser VariableTree := do
  let start ← here
  let pattern ← rules.pattern
  if (← atSign "!") && (← typed) then advance
  let type ← annotation? rules
  let value ← default? rules
  if value.isNone && !(← get).ambient && (needsValue || pattern.single.isNone) then
    fail "value expected"
  return { pattern, type, value, span := ← spanFrom start }

/-- The word that a declaration of variables starts with. -/
def variableKind? : Parser (Option VariableKind) := do
  match ← token with
  | .word "var" true => return some .isVar
  | .word "const" true => return some .isConst
  | .word "let" true =>
    let declares ← aheadHolds do
      advance
      return (← atName) || (← atOneOf ["[", "\x7b"])
    return if declares then some .isLet else none
  | _ => return none

/-- Variables behind their first word. -/
def variableGroup (rules : Rules) (kind : VariableKind) (isDeclared : Bool) : Parser VariablesTree := do
  advance
  let items ← withAmbient isDeclared (commaItems (variableTree rules (kind == .isConst)))
  return { items, kind, isDeclared }

/-! ## Functions and classes -/

/-- A function from the word `async` or `function` on. -/
def functionDeclaration (rules : Rules) (named : Bool) (isDeclared : Bool) : Parser FunctionTree := do
  let isAsync ← eatWord "async"
  expectWord "function"
  discard (eat "*")
  let n ← if named || (← atName) then some <$> name else pure none
  let f ← functionRest rules n isAsync
  return { f with isDeclared }

/-- A class from the word `abstract` or `class` on. -/
def classDeclaration (rules : Rules) (named : Bool) (isDeclared : Bool) : Parser ClassTree := do
  let isAbstract ← eatWord "abstract"
  if isAbstract then requireTypes
  expectWord "class"
  if named && !(← atName) then fail "name expected"
  let c ← withAmbient isDeclared (classRest rules)
  return { c with isAbstract, isDeclared }

/-! ## Types and enums -/

/-- A type alias behind the word `type`. -/
def aliasRest (rules : Rules) : Parser AliasTree := do
  let n ← name
  let typeParameters ← rules.typeParameters?
  expect "="
  let type ← rules.type
  semicolon
  return { name := n, typeParameters, type }

/-- The name of a member of an enum; none if it is computed. -/
def enumKey : Parser (Option String) := do
  match ← token with
  | .word w _ => advance; return some w
  | .string v => advance; return some v
  | .punct "[" =>
    advance
    match ← token with
    | .string _ | .template _ true =>
      advance
      expect "]"
      return none
    | _ => fail "name of a member expected"
  | _ => fail "name of a member expected"

/-- A member of an enum. -/
def enumMember (rules : Rules) : Parser EnumMemberTree := do
  let start ← here
  let n ← enumKey
  let value ← default? rules
  return { name := n, value, span := ← spanFrom start }

/-- An enum behind the word `enum`. -/
def enumRest (rules : Rules) (isDeclared : Bool) : Parser EnumTree := do
  let n ← name
  expect "\x7b"
  let members ← commaList "\x7d" (enumMember rules)
  return { name := n, members, isDeclared }

/-! ## Namespaces -/

/-- Statements with their braces. -/
def statementBlock (rules : Rules) : Parser (List Statement) := do
  expect "\x7b"
  let statements ← collect do
    if ← atSign "\x7d" then return none
    else return some (← rules.statement)
  expect "\x7d"
  return statements

/-- A namespace of the names `parts`, each with where it starts; every namespace but the last holds
only the next. -/
def nestedNamespace (first : String) (body : List Statement) (stop : Nat) :
    List (Nat × String) → Declared
  | [] => .namespaceLike first (some body)
  | (start, n) :: parts =>
    .namespaceLike first (some [.exported ⟨start, stop⟩ (nestedNamespace n body stop parts)])

/-- A namespace behind the word `namespace` or `module`. -/
def namespaceRest (rules : Rules) (isDeclared : Bool) : Parser Declared := do
  match ← token with
  | .string _ =>
    advance
    if ← atSign "\x7b" then discard (withAmbient true rules.block)
    else semicolon
    return .nameless
  | _ =>
    let first ← name
    let parts ← collect do
      if ← eat "." then
        let start ← here
        return some (start.offset, ← anyWord)
      else return none
    let body ← withAmbient isDeclared rules.block
    return nestedNamespace first body (← get).lastStop parts

/-! ## Declarations -/

/-- Is the word next, with a token that passes the test behind it? It has to stand on the same line
unless it is `certain` that a declaration follows. -/
def atWordBefore (certain : Bool) (word : String) (test : Token → Bool) : Parser Bool :=
  aheadHolds do
    expectWord word
    return test (← token) && (certain || !(← lineBreak))

/-- Is the token a name? -/
def isName : Token → Bool
  | .word w _ => !reservedWords.contains w
  | _ => false

/-- Is the token one of the words? -/
def isOneOf (words : List String) : Token → Bool
  | .word w true => words.contains w
  | _ => false

/-- The first words of declarations that may follow the word `declare`. -/
def declaredWords : List String :=
  ["var", "let", "const", "function", "async", "class", "abstract", "interface", "type", "enum",
    "namespace", "module", "global"]

/-- A declaration that only sources with types may hold, if one starts here. -/
def typedDeclaration? (rules : Rules) (certain isDeclared : Bool) : Parser (Option Declared) := do
  if ← atWordBefore certain "interface" isName then
    advance
    return some (.interfaceLike (← interfaceRest rules isDeclared))
  else if ← atWordBefore certain "type" isName then
    advance
    return some (.typeAlias (← aliasRest rules))
  else if ← atWords "const" "enum" then
    advance
    advance
    return some (.enumLike (← enumRest rules isDeclared))
  else if ← eatWord "enum" then
    return some (.enumLike (← enumRest rules isDeclared))
  else if ← atWordBefore certain "namespace" isName then
    advance
    return some (← namespaceRest rules isDeclared)
  else if ← atWordBefore certain "module" (fun t => isName t || t matches .string _) then
    advance
    return some (← namespaceRest rules isDeclared)
  else if ← atWordBefore certain "global" (· == .punct "\x7b") then
    advance
    discard (withAmbient true rules.block)
    return some .nameless
  else return none

/-- **A declaration, if one starts here.** Behind the words `export` and `declare` it is `certain`
that one does. -/
def declaration? (rules : Rules) (certain : Bool) : Parser (Option Declared) := do
  let isDeclared := (← typed) && (← atWordBefore certain "declare" (isOneOf declaredWords))
  if isDeclared then advance
  if ← typed then
    if let some d ← typedDeclaration? rules (certain || isDeclared) isDeclared then return some d
  if let some kind ← variableKind? then
    let t ← variableGroup rules kind isDeclared
    semicolon
    return some (.variableGroup t)
  if (← atWord "function") || (← atWords "async" "function") then
    return some (.functionLike (← functionDeclaration rules true isDeclared))
  if (← atWord "class") || (← atWords "abstract" "class") then
    return some (.classLike (← classDeclaration rules true isDeclared))
  if isDeclared then fail "declaration expected"
  return none

end ApiDocs.TypeScript.Parser
