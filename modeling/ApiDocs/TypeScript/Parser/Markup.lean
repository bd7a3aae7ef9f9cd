import ApiDocs.TypeScript.Parser.Rule

/-!
# Parsing elements of markup

Nothing of an element is kept. The text between tags is not made of tokens, so the bracket that ends
a tag inside an element is followed by a scan of text, and the last bracket of the outermost element
by a scan of a token.

## Main definitions

* `TypeScript.Parser.markupElement`: an element or a fragment.
-/

namespace ApiDocs.TypeScript.Parser

/-- The name of a tag or attribute. -/
def markupName : Parser Unit := do
  discard anyWord
  discard <| collect do
    if ← atOneOf [".", ":", "-"] then
      advance
      discard anyWord
      return some ()
    else return none

/-- An attribute. -/
def markupAttribute (rules : Rules) : Parser Unit := do
  if ← eat "\x7b" then
    expect "..."
    discard rules.assignment
    expect "\x7d"
  else
    markupName
    if ← eat "=" then
      match ← token with
      | .string _ => advance
      | .punct "\x7b" =>
        advance
        discard rules.sequence
        expect "\x7d"
      | _ => rules.markup false

/-- The bracket that ends a tag; `behind` reads it with what follows. -/
def tagEnd (behind : Parser Unit) : Parser Unit := do
  if ← atSign ">" then behind else fail "end of tag expected"

/-- What stands between an opening and a closing tag. The text before is the next token. -/
def markupChildren (rules : Rules) : Parser Unit := do
  discard <| collect do
    advance
    if ← atSign "\x7b" then
      advance
      if !(← atSign "\x7d") then
        discard (eat "...")
        discard rules.sequence
      if ← atSign "\x7d" then advanceMarkup else fail "closing brace expected"
      return some ()
    else if ← aheadHolds do expect "<"; atSign "/" then return none
    else
      rules.markup true
      return some ()

/-- An element or a fragment. -/
def markupElement (rules : Rules) (nested : Bool) : Parser Unit := do
  let finish := if nested then advanceMarkup else advance
  expect "<"
  if !(← atSign ">") then
    markupName
    discard <| collect do
      if ← atOneOf ["/", ">"] then return none
      markupAttribute rules
      return some ()
  if ← eat "/" then tagEnd finish
  else
    tagEnd advanceMarkup
    markupChildren rules
    expect "<"
    expect "/"
    if !(← atSign ">") then markupName
    tagEnd finish

end ApiDocs.TypeScript.Parser
