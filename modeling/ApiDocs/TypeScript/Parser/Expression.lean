import ApiDocs.TypeScript.Parser.Class

/-!
# Parsing expressions

Expressions are read in full, so that the statement behind them is found, but little of them is
kept: literals, arrays, new instances, arrow functions and casts, from which the type of a variable
is inferred.

## Main definitions

* `TypeScript.Parser.assignmentExpr`: an expression without commas.
* `TypeScript.Parser.operatorExpr`: operators by their levels.
* `TypeScript.Parser.unaryExpr`, `TypeScript.Parser.leftSideExpr`, `TypeScript.Parser.primaryExpr`.
-/

namespace ApiDocs.TypeScript.Parser

/-! ## Operators -/

/-- Operators that start with an angle bracket, longer ones before those they start with. -/
def angleSigns : List String := [">>>=", ">>>", ">>=", ">>", ">=", ">", "<<=", "<<", "<=", "<"]

/-- The sign at the next token, with angle brackets joined to what follows them. -/
def joinedSign? : Parser (Option String) := do
  match ← token with
  | .punct s =>
    if s == "<" || s == ">" then
      let rest := (← here).rest
      return angleSigns.find? fun sign => sign.toList.isPrefixOf rest
    else return some s
  | _ => return none

/-- Read a sign that `joinedSign?` gave. -/
def advanceSign (sign : String) : Parser Unit := do
  joinSign sign.length
  advance

/-- The signs between two operands, by how tightly they bind. -/
def signLevels : List (Nat × List String) :=
  [(1, ["??"]), (2, ["||"]), (3, ["&&"]), (4, ["|"]), (5, ["^"]), (6, ["&"]),
    (7, ["==", "!=", "===", "!=="]), (8, ["<", ">", "<=", ">="]), (9, ["<<", ">>", ">>>"]),
    (10, ["+", "-"]), (11, ["*", "/", "%"]), (12, ["**"])]

/-- The level of the words between two operands. -/
def wordLevel : Nat := 8

/-- The level of a sign. -/
def signLevel? (sign : String) : Option Nat :=
  (signLevels.find? fun (_, signs) => signs.contains sign).map (·.1)

/-- The signs of assignments. -/
def assignmentSigns : List String :=
  ["=", "+=", "-=", "*=", "/=", "%=", "**=", "<<=", ">>=", ">>>=", "&=", "|=", "^=", "&&=", "||=",
    "??="]

/-- An operator and its right side behind a left side, if the operator binds tighter than the
level. -/
def operatorStep (rules : Rules) (level : Nat) (_left : Expr) : Parser (Option Expr) := do
  let isCast := (← atWord "as") || (← atWord "satisfies")
  if isCast && !(← lineBreak) && (← typed) then
    if wordLevel ≤ level then return none
    let keeps ← atWord "as"
    advance
    let t ← rules.type
    return some (if keeps then .cast t else .other)
  else if (← atWord "instanceof") || (← atWord "in") then
    if wordLevel ≤ level then return none
    advance
    discard (rules.operators wordLevel)
    return some .other
  else
    match ← joinedSign? with
    | some sign =>
      match signLevel? sign with
      | some l =>
        if l ≤ level then return none
        advanceSign sign
        discard (rules.operators (if sign == "**" then l - 1 else l))
        return some .other
      | none => return none
    | none => return none

/-- Operands between operators that bind tighter than the level. -/
def operatorExpr (rules : Rules) (level : Nat) : Parser Expr := do
  let first ← rules.unary
  grow (operatorStep rules level) first

/-! ## Primary expressions -/

/-- A function behind the word `function`. -/
def functionExpr (rules : Rules) : Parser Unit := do
  expectWord "function"
  discard (eat "*")
  if ← atName then advance
  discard (signature rules none false)
  discard rules.block

/-- A property of an object. -/
def objectProperty (rules : Rules) : Parser Unit := do
  if ← eat "..." then
    discard rules.assignment
    return
  discard (modifiers ["async"] startsMember)
  discard (eat "*")
  discard accessorKind?
  let shorthand ← atName
  discard (memberKey rules)
  if ← atOneOf ["(", "<"] then
    discard (signature rules none false)
    discard rules.block
  else if ← eat ":" then discard rules.assignment
  else if shorthand then discard (default? rules)
  else fail "value expected"

/-- A new instance, behind the word `new`. -/
def newExpr (rules : Rules) : Parser Expr := do
  expectWord "new"
  if ← eat "." then
    discard anyWord
    return .other
  let made ← rules.newTarget
  if (← atSign "<") && (← typed) then discard (attempt (typeArguments rules))
  if ← atSign "(" then callArguments rules
  match made with
  | .name n => return .instanceOf n
  | _ => return .other

/-- The elements of an array that are expressions of their own. -/
def arrayExpr (rules : Rules) : Parser Expr := do
  expect "["
  let elements ← commaList "]" do
    if ← atSign "," then return none
    if ← eat "..." then
      discard rules.assignment
      return none
    return some (← rules.assignment)
  return .array (elements.filterMap id)

/-- Do a word and, on the same line, another word follow? -/
def atWords (first second : String) : Parser Bool :=
  aheadHolds do
    expectWord first
    return (← atWord second) && !(← lineBreak)

/-- An expression that starts with a word. -/
def wordExpr (rules : Rules) (word : String) : Parser Expr := do
  match word with
  | "this" | "super" => advance; return .other
  | "null" => advance; return .null
  | "true" => advance; return .boolean true
  | "false" => advance; return .boolean false
  | "new" => newExpr rules
  | "function" => functionExpr rules; return .other
  | "class" =>
    advance
    discard (classRest rules)
    return .other
  | "import" =>
    advance
    if ← eat "." then discard anyWord
    else callArguments rules
    return .other
  | _ =>
    if ← atWords "async" "function" then
      advance
      functionExpr rules
      return .other
    else return .name (← name)

/-- An expression without operators, members or calls. -/
def primaryExpr (rules : Rules) : Parser Expr := do
  match ← token with
  | .word w true => wordExpr rules w
  | .word _ false => return .name (← name)
  | .privateWord _ =>
    advance
    if !(← atWord "in") then fail "a private name is a value only before 'in'"
    return .other
  | .number v => advance; return .number v
  | .string v => advance; return .text v
  | .bigint _ => advance; return .other
  | .template .. =>
    template (discard rules.sequence)
    return .template
  | .punct s =>
    if s == "/" || s == "/=" then
      rescan scanRegex
      advance
      return .other
    else if s == "(" then
      advance
      let e ← withArrowResults true rules.sequence
      expect ")"
      return .parens e
    else if s == "[" then arrayExpr rules
    else if s == "\x7b" then
      advance
      discard (commaList "\x7d" (objectProperty rules))
      return .other
    else if s == "@" then
      decorators rules
      expectWord "class"
      discard (classRest rules)
      return .other
    else if s == "<" && (← get).dialect.markup then
      rules.markup false
      return .other
    else fail "expression expected"
  | _ => fail "expression expected"

/-! ## Members and calls -/

/-- The name of a member behind a point. -/
def memberName : Parser Unit := do
  match ← token with
  | .word .. | .privateWord _ => advance
  | _ => fail "name of a member expected"

/-- A value in brackets. -/
def elementAccess (rules : Rules) : Parser Unit := do
  expect "["
  discard rules.sequence
  expect "]"

/-- A member of a value: behind a point, in brackets, or a template that it is applied to. -/
def memberStep (rules : Rules) : Parser Bool := do
  match ← token with
  | .punct "." => advance; memberName; return true
  | .punct "[" => elementAccess rules; return true
  | .punct "!" =>
    if (← typed) && !(← lineBreak) then advance; return true
    else return false
  | .template .. => template (discard rules.sequence); return true
  | _ => return false

/-- Can the token start an expression? -/
def startsExpr : Token → Bool
  | .word w _ => !(["in", "instanceof", "as", "satisfies", "of"].contains w)
  | .punct s => ["(", "[", "\x7b", "!", "~", "+", "-", "++", "--", "<", "/", "/=", "@"].contains s
  | .eof => false
  | _ => true

/-- Type arguments behind a value. They are such only if what follows cannot be an operand. -/
def valueTypeArguments (rules : Rules) : Parser Unit := do
  discard (typeArguments rules)
  match ← token with
  | .punct "(" | .template .. => return
  | .punct s => if ["<", ">", "+", "-"].contains s then fail "operator"
  | _ => return
  if !(← lineBreak) && startsExpr (← token) then fail "operand"

/-- A call or a member of a value. -/
def callStep (rules : Rules) (_left : Expr) : Parser (Option Expr) := do
  if ← memberStep rules then return some .other
  match ← token with
  | .punct "?." =>
    advance
    if ← atSign "(" then callArguments rules
    else if ← atSign "[" then elementAccess rules
    else if ← atSign "<" then
      discard (typeArguments rules)
      callArguments rules
    else memberName
    return some .other
  | .punct "(" => callArguments rules; return some .other
  | .punct "<" =>
    if ← typed then
      if (← attempt (valueTypeArguments rules)).isSome then return some .other
    return none
  | _ => return none

/-- A value with its members and calls. -/
def leftSideExpr (rules : Rules) : Parser Expr := do
  let first ← primaryExpr rules
  grow (callStep rules) first

/-- What a new instance is made of: a value with members, but without calls. -/
def newTargetExpr (rules : Rules) : Parser Expr := do
  let first ← primaryExpr rules
  grow (fun _ => do if ← memberStep rules then return some .other else return none) first

/-! ## Unary operators -/

/-- An operator behind its operand, if one follows on the same line. -/
def postfixExpr (rules : Rules) : Parser Expr := do
  let e ← rules.leftSide
  if (← atOneOf ["++", "--"]) && !(← lineBreak) then
    advance
    return .other
  else return e

/-- Does the word `await` wait for a value here? -/
def startsAwait : Parser Bool :=
  aheadHolds do
    expectWord "await"
    return startsExpr (← token) && !(← atOneOf ["/", "/="])

/-- An expression with an operator before it. -/
def unaryExpr (rules : Rules) : Parser Expr := do
  match ← token with
  | .punct s =>
    if ["!", "~", "+", "++", "--"].contains s then
      advance
      discard rules.unary
      return .other
    else if s == "-" then
      advance
      match ← rules.unary with
      | .number v => return .negative v
      | _ => return .other
    else if s == "<" && (← typed) && !(← get).dialect.markup then
      advance
      discard rules.type
      expect ">"
      discard rules.unary
      return .other
    else postfixExpr rules
  | .word w true =>
    if ["typeof", "void", "delete"].contains w || (← startsAwait) then
      advance
      discard rules.unary
      return .other
    else postfixExpr rules
  | _ => postfixExpr rules

/-! ## Arrow functions -/

/-- The result type of an arrow function, as written. -/
def arrowResult? (rules : Rules) : Parser (Option String) := do
  if (← atSign ":") && (← get).arrowResults then
    requireTypes
    advance
    let start ← here
    discard (resultType rules)
    return some (← textFrom start)
  else return none

/-- An arrow function up to its arrow: the text of its parameters and of its result type. -/
def arrowHead (rules : Rules) : Parser (String × Option String) := do
  let isAsync ← aheadHolds do
    expectWord "async"
    return !(← lineBreak) && ((← atName) || (← atOneOf ["(", "<"]))
  if isAsync then advance
  let found ←
    if ← atName then
      let n ← name
      pure (n, none)
    else
      if (← atSign "<") && (← get).dialect.markup then
        let isList ← aheadHolds do
          expect "<"
          discard name
          return (← atSign ",") || (← atWord "extends")
        if !isList then fail "this is an element"
      discard rules.typeParameters?
      let start ← here
      discard rules.parameters
      let parameters ← textFrom start
      pure (parameters, ← arrowResult? rules)
  if (← atSign "=>") && !(← lineBreak) then
    advance
    return found
  else fail "arrow expected"

/-- Can an arrow function start here? -/
def startsArrow : Parser Bool := do
  match ← token with
  | .punct s => return s == "(" || s == "<"
  | .word "async" true => return true
  | .word .. =>
    aheadHolds do
      discard name
      atSign "=>"
  | _ => return false

/-- The body of an arrow function. -/
def arrowBody (rules : Rules) : Parser Unit := do
  if ← atSign "\x7b" then discard rules.block
  else discard rules.assignment

/-! ## Assignments -/

/-- The part of a conditional behind its question mark, with the colon. An arrow function in it has
a result type only if a colon still follows. -/
def whenTrue (rules : Rules) : Parser Unit := do
  let branch := do
    discard rules.assignment
    expect ":"
  orElseTry (withArrowResults true branch) (withArrowResults false branch)

/-- Can something be assigned to the expression? -/
def isTarget : Expr → Bool
  | .name _ | .other | .parens _ | .cast _ | .array _ => true
  | _ => false

/-- Does the word `yield` give a value here? -/
def startsYield : Parser Bool :=
  aheadHolds do
    expectWord "yield"
    return !(← lineBreak) && (startsExpr (← token) || (← atSign "*")) && !(← atOneOf ["/", "/="])

/-- An expression with operators, its condition or its assignment. -/
def plainAssignment (rules : Rules) : Parser Expr := do
  let left ← rules.operators 0
  if ← eat "?" then
    whenTrue rules
    discard rules.assignment
    return .other
  match ← joinedSign? with
  | some sign =>
    if assignmentSigns.contains sign then
      if !isTarget left then fail "nothing can be assigned here"
      advanceSign sign
      discard rules.assignment
      return .other
    else return left
  | none => return left

/-- **An expression without commas.** -/
def assignmentExpr (rules : Rules) : Parser Expr := do
  if ← startsYield then
    advance
    discard (eat "*")
    discard rules.assignment
    return .other
  let head ← if ← startsArrow then attempt (arrowHead rules) else pure none
  match head with
  | some (parameters, result) =>
    arrowBody rules
    return .arrow parameters result
  | none => plainAssignment rules

/-- Expressions between commas. -/
def sequenceExpr (rules : Rules) : Parser Expr := do
  match ← commaItems rules.assignment with
  | [e] => return e
  | _ => return .other

end ApiDocs.TypeScript.Parser
