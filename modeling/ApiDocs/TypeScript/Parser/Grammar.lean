import ApiDocs.SourcePath
import ApiDocs.TypeScript.Parser.Markup
import ApiDocs.TypeScript.Parser.Statement

/-!
# Parsing sources

The grammar gives each rule its parser. How deeply forms can nest is bounded by the length of the
source, so a depth computed from it is never what refuses a source.

## Main definitions

* `TypeScript.grammar`: the parsers of all rules.
* `TypeScript.Dialect.ofPath`: what a source allows, by its path.
* `TypeScript.SourceTree.parse`: the tree of a source.
-/

namespace ApiDocs.TypeScript

/-- The parser of a rule, written against parsers for all rules. -/
def rulesFrom (rules : Rules) : Rules
  | .type conditional => Parser.fullType rules conditional
  | .operatorType conditional => Parser.wordedType rules conditional
  | .typeParameters => Parser.typeParameterList rules
  | .interfaceMembers => Parser.interfaceBody rules
  | .pattern => Parser.bindingPattern rules
  | .parameters => Parser.parameterList rules
  | .assignment => Parser.assignmentExpr rules
  | .sequence => Parser.sequenceExpr rules
  | .operators level => Parser.operatorExpr rules level
  | .unary => Parser.unaryExpr rules
  | .newTarget => Parser.newTargetExpr rules
  | .leftSide => Parser.leftSideExpr rules
  | .markup nested => Parser.markupElement rules nested
  | .block => Parser.statementBlock rules
  | .statement => Parser.fullStatement rules

/-- **The parsers of all rules**, for forms that nest at most `depth` rules deep. -/
def grammar : (depth : Nat) → Rules
  | 0, _ => fun _ => failAt 0 "nested too deeply"
  | depth + 1, rule => fun s => rulesFrom (grammar depth) rule s

/-- How many rules deep the forms of a source of some length can nest. -/
def depthFor (length : Nat) : Nat := 16 * length + 64

namespace Dialect

/-- Sources with types. -/
def typeScript : Dialect := { typed := true, markup := false, declarations := false }

/-- What a source allows, by the extension of its path. -/
def ofPath (path : String) : Dialect :=
  match String.ofList (SourcePath.extension path.toList) with
  | "js" | "mjs" | "cjs" | "jsx" => { typed := false, markup := true, declarations := false }
  | "tsx" => { typeScript with markup := true }
  | "ts" | "mts" | "cts" =>
    { typeScript with
      declarations := path.endsWith ".d.ts" || path.endsWith ".d.mts" || path.endsWith ".d.cts" }
  | _ => typeScript

end Dialect

/-- The source behind a first line that tells with what to run it. -/
def skipInterpreter (source : Cursor) : Cursor :=
  match source.rest with
  | '#' :: '!' :: _ => (source.takeWhile fun c => !isLineBreak c).2
  | _ => source

/-- All statements of a source. -/
def parseStatements (rules : Rules) : Parser (List Statement) :=
  Parser.collect do
    if (← Parser.token) == .eof then return none
    else return some (← rules.statement)

/-- **The tree of a source.** -/
def SourceTree.parse (dialect : Dialect) (text : String) : Except ParseError SourceTree := do
  let source := skipInterpreter ⟨text.toList, 0⟩
  let start ← Parser.start dialect source
  let (statements, finish) ← parseStatements (grammar (depthFor source.rest.length)) start
  return { statements, docs := finish.docs }

end ApiDocs.TypeScript
