import ApiDocs.Text.Lines

/-!
# Documentation comments

A comment describes what follows it in a summary, and parameters in tags `@param`. Lines are read
without the star that decorates them. A tag starts a line and ends the summary; the lines behind a
`@param` tag go on with the description of the last parameter.

## Main definitions

* `DocComment`: a summary and descriptions of parameters.
* `DocComment.parse`: the comment that a text holds.
* `DocComment.parameter`: the description of a parameter.
-/

namespace ApiDocs

/-- What a comment says. -/
structure DocComment where
  /-- The text before the first tag, with its line breaks. -/
  summary : Option String := none
  /-- Names of parameters with their descriptions, in order. -/
  parameters : List (String × String) := []
  deriving DecidableEq, Repr, Inhabited

namespace DocComment

/-- The summary, empty if there is none. -/
def summaryText (d : DocComment) : String := d.summary.getD ""

/-- The description of a parameter, empty if there is none. -/
def parameter (d : DocComment) (name : String) : String :=
  ((d.parameters.find? (·.1 == name)).map (·.2)).getD ""

/-! ## Lines -/

/-- A line without blanks around it and without the star that decorates it. -/
def undecorate (line : List Char) : List Char :=
  let line := Text.trim line
  Text.trim ((Text.stripStart? ['*'] line).getD line)

/-- The lines of a comment, without what decorates them. -/
def contentLines (raw : String) : List (List Char) := (Text.lines raw.toList).map undecorate

/-! ## Tags -/

/-- A text without the type in braces that it may start with. -/
def skipType (payload : List Char) : List Char :=
  let payload := Text.trim payload
  match payload with
  | '\x7b' :: rest =>
    match rest.dropWhile (· ≠ '\x7d') with
    | _ :: behind => Text.trim behind
    | [] => payload
  | _ => payload

/-- A name without the brackets that mark it as optional, and without its default. -/
def parameterName (written : List Char) : List Char :=
  let isBracket := fun c => c == '[' || c == ']'
  let inner := ((written.dropWhile isBracket).reverse.dropWhile isBracket).reverse
  inner.takeWhile (· ≠ '=')

/-- A text without the dashes, each with a space behind it, that it starts with. -/
def skipDashes : List Char → List Char
  | '-' :: ' ' :: rest => skipDashes rest
  | cs => cs

/-- The parameter that the text of a tag names, with its description. -/
def parameterOf? (payload : List Char) : Option (String × String) :=
  let (written, rest) := Text.splitBlank (skipType payload)
  match parameterName (Text.trim written) with
  | [] => none
  | name =>
    let description := Text.trim (skipDashes (Text.trim (rest.getD [])))
    some (String.ofList name, String.ofList description)

/-! ## Reading -/

/-- What the next line of a comment goes on with. -/
inductive Section where
  | summary
  | parameter
  /-- A tag that is not kept. -/
  | other
  deriving DecidableEq, Repr

/-- A comment read up to some line. -/
structure Reading where
  current : Section := .summary
  summary : List (List Char) := []
  parameters : List (String × String) := []
  deriving Repr

/-- Go on with the description of the last parameter. -/
def continueLast (line : List Char) : List (String × String) → List (String × String)
  | [] => []
  | [(name, description)] =>
    [(name, if description.isEmpty then String.ofList line
      else description ++ " " ++ String.ofList line)]
  | p :: ps => p :: continueLast line ps

/-- Read a tag, behind its sign. -/
def Reading.tag (r : Reading) (text : List Char) : Reading :=
  let (tag, payload) := Text.splitBlank text
  if tag == "param".toList then
    { r with
      current := .parameter
      parameters := r.parameters ++ (parameterOf? (Text.trim (payload.getD []))).toList }
  else { r with current := .other }

/-- Read a line. -/
def Reading.line (r : Reading) (line : List Char) : Reading :=
  match line, r.current with
  | '@' :: text, _ => r.tag text
  | _, .summary => { r with summary := r.summary ++ [line] }
  | [], _ => r
  | _, .parameter => { r with parameters := continueLast line r.parameters }
  | _, .other => r

/-- The summary that lines make, none if there is nothing but blanks. -/
def composeSummary (lines : List (List Char)) : Option String :=
  match Text.trim (['\n'].intercalate lines) with
  | [] => none
  | cs => some (String.ofList cs)

/-- **The comment that a text holds.** The text is that between the delimiters. -/
def parse (raw : String) : DocComment :=
  let r := (contentLines raw).foldl Reading.line {}
  { summary := composeSummary r.summary, parameters := r.parameters }

end DocComment

end ApiDocs
