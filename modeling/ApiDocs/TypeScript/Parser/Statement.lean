import ApiDocs.TypeScript.Parser.Declaration

/-!
# Parsing statements

## Main definitions

* `TypeScript.Parser.importStatement`, `TypeScript.Parser.exportStatement`: what a module takes and
  gives.
* `TypeScript.Parser.fullStatement`: a statement.
-/

namespace ApiDocs.TypeScript.Parser

/-! ## Modules -/

/-- The text that names a module. -/
def moduleText : Parser String := do
  match ← token with
  | .string v => advance; return v
  | _ => fail "module expected"

/-- A name that a module gives: any word, or a string. -/
def exportedName : Parser String := do
  match ← token with
  | .string v => advance; return v
  | _ => anyWord

/-- The module behind the word `from`, up to the end of the statement. -/
def moduleClause (rules : Rules) : Parser String := do
  let source ← moduleText
  if (← atWord "with") || ((← atWord "assert") && !(← lineBreak)) then
    advance
    discard (rules.leftSide)
  semicolon
  return source

/-- Is the word `type` next, as a mark and not as a name? -/
def marksType : Parser Bool :=
  aheadHolds do
    expectWord "type"
    match ← token with
    | .string _ => return true
    | .word "as" true =>
      advance
      match ← token with
      | .word "as" true =>
        advance
        return (← word?).isSome
      | .word .. => return false
      | _ => return true
    | .word .. => return true
    | _ => return false

/-- A name and the name that it is given, with whether only its type is meant. -/
def specifierNames : Parser (Bool × String × Option String) := do
  let typeOnly ← marksType
  if typeOnly then
    requireTypes
    advance
  let n ← exportedName
  if ← eatWord "as" then return (typeOnly, n, some (← exportedName))
  else return (typeOnly, n, none)

/-- A name that an import takes. -/
def importSpecifier (typeOnly : Bool) : Parser ImportSpecifier := do
  let start ← here
  let (marked, n, given) ← specifierNames
  let localName := given.getD n
  if reservedWords.contains localName then fail "name expected"
  return {
    localName
    span := ← spanFrom start
    imported := if n == "default" then .defaultExport else .named n
    typeOnly := typeOnly || marked }

/-- What an import takes behind the default export: names, or the whole module. -/
def importedNames (typeOnly : Bool) : Parser (List ImportSpecifier) := do
  let start ← here
  if ← eat "*" then
    expectWord "as"
    let localName ← name
    return [{ localName, typeOnly, imported := .wholeModule, span := ← spanFrom start }]
  else
    expect "\x7b"
    commaList "\x7d" (importSpecifier typeOnly)

/-- Is the word `type` next, as a mark of a whole import? -/
def marksTypeImport : Parser Bool :=
  aheadHolds do
    expectWord "type"
    match ← token with
    | .punct s => return s == "\x7b" || s == "*"
    | .word "from" true =>
      advance
      return (← atWord "from") || (← atSign "=")
    | .word .. => return true
    | _ => return false

/-- The value of an import that gives another name to a part of a namespace or to a module. -/
def importTarget (rules : Rules) : Parser Unit := do
  requireTypes
  expect "="
  discard entityName
  if ← atSign "(" then callArguments rules
  semicolon

/-- An import behind the word `import`. -/
def importRest (rules : Rules) (start : Cursor) : Parser Statement := do
  match ← token with
  | .string _ => return .imported [] (← moduleClause rules)
  | _ =>
    let typeOnly ← marksTypeImport
    if typeOnly then
      requireTypes
      advance
    if ← atName then
      let nameStart ← here
      let localName ← name
      if ← atSign "=" then
        importTarget rules
        return .declared (← spanFrom start) (.importEquals localName)
      let first : ImportSpecifier :=
        { localName, typeOnly, imported := .defaultExport, span := ← spanFrom nameStart }
      let more ← if ← eat "," then importedNames typeOnly else pure []
      expectWord "from"
      return .imported (first :: more) (← moduleClause rules)
    else
      let names ← importedNames typeOnly
      expectWord "from"
      return .imported names (← moduleClause rules)

/-- A name that an export gives. -/
def exportSpecifier (typeOnly : Bool) : Parser ExportSpecifier := do
  let start ← here
  let (marked, n, given) ← specifierNames
  return {
    localName := n
    exported := given.getD n
    span := ← spanFrom start
    typeOnly := typeOnly || marked }

/-- Names that an export gives, from their opening brace on. -/
def exportedNames (rules : Rules) (typeOnly : Bool) : Parser Statement := do
  expect "\x7b"
  let specifiers ← commaList "\x7d" (exportSpecifier typeOnly)
  if ← eatWord "from" then return .exportNames specifiers (some (← moduleClause rules))
  else
    if specifiers.any fun s => reservedWords.contains s.localName then fail "name expected"
    semicolon
    return .exportNames specifiers none

/-- All that a module gives, from the star on. -/
def exportedModule (rules : Rules) (start : Cursor) : Parser Statement := do
  expect "*"
  let n ← if ← eatWord "as" then some <$> exportedName else pure none
  expectWord "from"
  let source ← moduleClause rules
  return .exportAll (← spanFrom start) n source

/-- A default export behind the word `default`. -/
def exportedDefault (rules : Rules) (start : Cursor) : Parser Statement := do
  decorators rules
  if (← atWord "function") || (← atWords "async" "function") then
    let f ← functionDeclaration rules false false
    return .exportFunction (← spanFrom start) f
  else if (← atWord "class") || (← atWords "abstract" "class") then
    let c ← classDeclaration rules false false
    return .exportClass (← spanFrom start) c
  else if (← typed) && (← atWordBefore false "interface" isName) then
    advance
    let i ← interfaceRest rules false
    return .exportInterface (← spanFrom start) i
  else
    let e ← rules.assignment
    semicolon
    return .exportValue (← spanFrom start) e

/-- An exported declaration. -/
def exportedDeclaration (rules : Rules) (start : Cursor) : Parser Statement := do
  decorators rules
  match ← declaration? rules true with
  | some d => return .exported (← spanFrom start) d
  | none => fail "declaration expected"

/-- An export behind the word `export`. -/
def exportRest (rules : Rules) (start : Cursor) : Parser Statement := do
  let typeOnly ← aheadHolds do
    expectWord "type"
    atOneOf ["\x7b", "*"]
  if typeOnly then
    requireTypes
    advance
  match ← token with
  | .punct "*" => exportedModule rules start
  | .punct "\x7b" => exportedNames rules typeOnly
  | .punct "=" =>
    requireTypes
    advance
    discard rules.sequence
    semicolon
    return .exportAssignment
  | .word "default" true =>
    advance
    exportedDefault rules start
  | .word "import" true =>
    advance
    if ← marksTypeImport then advance
    let n ← name
    importTarget rules
    return .exported (← spanFrom start) (.importEquals n)
  | .word "as" true =>
    requireTypes
    advance
    expectWord "namespace"
    discard name
    semicolon
    return .other []
  | _ => exportedDeclaration rules start

/-! ## Control -/

/-- A value in parentheses. -/
def condition (rules : Rules) : Parser Unit := do
  expect "("
  discard rules.sequence
  expect ")"

/-- The variables that a statement declares for its surroundings. -/
def hoistedBy (rules : Rules) : Parser (List String) := do return (← rules.statement).hoisted

/-- The variables that a block declares for its surroundings. -/
def hoistedByBlock (rules : Rules) : Parser (List String) := do
  return (← rules.block).flatMap Statement.hoisted

/-- The head of a loop over the keys or elements of a value. -/
def loopOver (rules : Rules) : Parser (List String) := do
  let names ←
    match ← variableKind? with
    | some kind =>
      advance
      let p ← rules.pattern
      pure (if kind == .isVar then p.names else [])
    | none =>
      discard rules.leftSide
      pure []
  if (← atWord "of") || (← atWord "in") then advance else fail "loop expected"
  discard rules.sequence
  expect ")"
  return names

/-- The head of a loop with a start, a condition and a step. -/
def loopWhile (rules : Rules) : Parser (List String) := do
  let names ←
    match ← variableKind? with
    | some kind =>
      let t ← variableGroup rules kind false
      pure (if kind == .isVar then t.items.flatMap (·.pattern.names) else [])
    | none =>
      if !(← atSign ";") then discard rules.sequence
      pure []
  expect ";"
  if !(← atSign ";") then discard rules.sequence
  expect ";"
  if !(← atSign ")") then discard rules.sequence
  expect ")"
  return names

/-- A branch of a `switch`. -/
def switchBranch (rules : Rules) : Parser (List String) := do
  if ← eatWord "case" then discard rules.sequence
  else expectWord "default"
  expect ":"
  let statements ← collect do
    if (← atWord "case") || (← atWord "default") || (← atSign "\x7d") then return none
    else return some (← rules.statement)
  return statements.flatMap Statement.hoisted

/-- What may follow a block that is tried. -/
def tryRest (rules : Rules) : Parser (List String) := do
  let caught ←
    if ← eatWord "catch" then
      if ← eat "(" then
        discard rules.pattern
        discard (annotation? rules)
        expect ")"
      some <$> hoistedByBlock rules
    else pure none
  let finished ← if ← eatWord "finally" then some <$> hoistedByBlock rules else pure none
  if caught.isNone && finished.isNone then fail "catch expected"
  return caught.getD [] ++ finished.getD []

/-- A statement that directs what is run, by its first word; none if the word directs nothing. -/
def controlStatement? (rules : Rules) (word : String) : Parser (Option (List String)) := do
  match word with
  | "if" =>
    advance
    condition rules
    let names ← hoistedBy rules
    if ← eatWord "else" then return some (names ++ (← hoistedBy rules))
    else return some names
  | "for" =>
    advance
    discard (eatWord "await")
    expect "("
    let names ← orElseTry (loopOver rules) (loopWhile rules)
    return some (names ++ (← hoistedBy rules))
  | "while" | "with" =>
    advance
    condition rules
    return some (← hoistedBy rules)
  | "do" =>
    advance
    let names ← hoistedBy rules
    expectWord "while"
    condition rules
    discard (eat ";")
    return some names
  | "switch" =>
    advance
    condition rules
    expect "\x7b"
    let branches ← collect do
      if ← atSign "\x7d" then return none
      else return some (← switchBranch rules)
    expect "\x7d"
    return some branches.flatten
  | "try" =>
    advance
    let names ← hoistedByBlock rules
    return some (names ++ (← tryRest rules))
  | "throw" =>
    advance
    if ← lineBreak then fail "what is thrown stands in the same line"
    discard rules.sequence
    semicolon
    return some []
  | "return" =>
    advance
    let ended := (← lineBreak) || (← atOneOf [";", "\x7d"]) || (← token) == .eof
    if !ended then discard rules.sequence
    semicolon
    return some []
  | "break" | "continue" =>
    advance
    if (← atName) && !(← lineBreak) then advance
    semicolon
    return some []
  | "debugger" =>
    advance
    semicolon
    return some []
  | _ => return none

/-! ## Statements -/

/-- A statement with decorators in front. They are part of a class, but not of an export. -/
def decoratedStatement (rules : Rules) : Parser Statement := do
  let start ← here
  decorators rules
  let behind ← here
  if ← eatWord "export" then
    if ← eatWord "default" then exportedDefault rules behind
    else exportedDeclaration rules behind
  else
    match ← declaration? rules false with
    | some d => return .declared (← spanFrom start) d
    | none => fail "class expected"

/-- An expression that stands as a statement. -/
def expressionStatement (rules : Rules) : Parser Statement := do
  discard rules.sequence
  semicolon
  return .other []

/-- A statement that starts with a word. -/
def wordStatement (rules : Rules) (word : String) : Parser Statement := do
  let start ← here
  let isImport ← aheadHolds do
    expectWord "import"
    return !(← atOneOf ["(", "."])
  if isImport then
    advance
    importRest rules start
  else if ← eatWord "export" then exportRest rules start
  else if let some names ← controlStatement? rules word then return .other names
  else if let some d ← declaration? rules false then return .declared (← spanFrom start) d
  else
    let isLabel ← aheadHolds do
      discard name
      atSign ":"
    if isLabel then
      advance
      advance
      return .other (← hoistedBy rules)
    else expressionStatement rules

/-- **A statement.** -/
def fullStatement (rules : Rules) : Parser Statement := do
  match ← token with
  | .punct "\x7b" => return .other (← hoistedByBlock rules)
  | .punct ";" => advance; return .other []
  | .punct "@" => decoratedStatement rules
  | .word w true => wordStatement rules w
  | _ => expressionStatement rules

end ApiDocs.TypeScript.Parser
