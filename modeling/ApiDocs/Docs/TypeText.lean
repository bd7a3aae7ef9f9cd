import ApiDocs.Docs.Model

/-!
# Texts of described types

A described type is written in the notation of sources. Unions and intersections inside an array,
a union or an intersection stand in parentheses; the arguments of a reference need none. Hooks see
the text of every part and may replace it, so that a renderer can wrap references in links without
restating these rules; they run in a monad, which lets them also record what they see.

## Main definitions

* `FormatHooks`: replacements for the texts of parts.
* `TypeDoc.formatWith`: the text of a type under hooks.
* `TypeDoc.format`: the text of a type.
-/

namespace ApiDocs

/-- Replacements for the texts of parts; each is given the text it replaces. -/
structure FormatHooks (m : Type → Type) where
  /-- Names, literals and types given by their display. -/
  unknown : TypeDoc → String → m String
  /-- The name of a reference, without its arguments. -/
  reference : RefId → Option RefDoc → String → m String
  /-- A reference with its arguments. -/
  generic : TypeDoc → String → m String
  array : TypeDoc → String → m String
  union : TypeDoc → String → m String
  intersection : TypeDoc → String → m String

/-- Hooks that replace nothing. -/
def FormatHooks.plain : FormatHooks Id where
  unknown _ text := text
  reference _ _ text := text
  generic _ text := text
  array _ text := text
  union _ text := text
  intersection _ text := text

/-- Put a text in parentheses on demand. -/
def parenthesized (needed : Bool) (text : String) : String :=
  if needed then "(" ++ text ++ ")" else text

namespace TypeDoc

variable {m : Type → Type} [Monad m] (hooks : FormatHooks m) (refs : Array RefDoc)

mutual

/-- The text of a type; `nested` tells whether a union or intersection needs parentheses. -/
def formatNested (nested : Bool) : TypeDoc → m String
  | .name text => hooks.unknown (.name text) text
  | .literal primitive value => hooks.unknown (.literal primitive value) primitive
  | .unsupported kind display => hooks.unknown (.unsupported kind display) display
  | .ref target arguments => do
    let record := refs[target.index]?
    let output ← hooks.reference target record ((record.map (·.name)).getD "")
    if arguments.isEmpty then return output
    let texts ← formatAll false arguments
    hooks.generic (.ref target arguments) (output ++ "<" ++ ", ".intercalate texts ++ ">")
  | .arrayOf element => do
    let text ← formatNested true element
    hooks.array (.arrayOf element) (text ++ "[]")
  | .unionOf members => do
    let texts ← formatAll true members
    hooks.union (.unionOf members) (parenthesized nested (" | ".intercalate texts))
  | .intersectionOf members => do
    let texts ← formatAll true members
    hooks.intersection (.intersectionOf members)
      (parenthesized nested (" & ".intercalate texts))

/-- The texts of types, in order. -/
def formatAll (nested : Bool) : List TypeDoc → m (List String)
  | [] => return []
  | t :: ts => do
    let text ← formatNested nested t
    let texts ← formatAll nested ts
    return text :: texts

end

/-- The text of a type under hooks. -/
def formatWith (t : TypeDoc) : m String := formatNested hooks refs false t

/-- The text of a type. -/
def format (refs : Array RefDoc) (t : TypeDoc) : String :=
  Id.run (t.formatWith FormatHooks.plain refs)

end TypeDoc

end ApiDocs
