import ApiDocs.PathPattern.Reader

/-!
# Filters of paths

A filter lets a path through that some pattern includes and no pattern excludes. Without patterns
that include, all paths are included. Paths are matched with forward slashes.

## Main definitions

* `PathFilter.ofTexts`: a filter from the texts of patterns.
* `PathFilter.admits`: does the filter let a path through?
-/

namespace ApiDocs

/-- What a pattern is for. -/
inductive FilterField where
  | inclusion
  | exclusion
  deriving DecidableEq, Repr, Inhabited

/-- The name of what a pattern is for. -/
def FilterField.text : FilterField → String
  | inclusion => "include"
  | exclusion => "exclude"

/-- Patterns that include and exclude paths. -/
structure PathFilter where
  included : List PathPattern := []
  excluded : List PathPattern := []
  deriving DecidableEq, Repr, Inhabited

/-- A text that is no pattern. -/
structure PatternError where
  field : FilterField
  text : String
  deriving DecidableEq, Repr, Inhabited

namespace PathFilter

/-- The patterns of texts; the first text that is no pattern is refused. -/
def readAll (field : FilterField) (texts : List String) : Except PatternError (List PathPattern) :=
  texts.mapM fun text =>
    match PathPattern.read? text with
    | some p => .ok p
    | none => .error ⟨field, text⟩

/-- A filter from the texts of patterns. -/
def ofTexts (included excluded : List String) : Except PatternError PathFilter := do
  return ⟨← readAll .inclusion included, ← readAll .exclusion excluded⟩

/-- Is the filter without patterns? -/
def isEmpty (f : PathFilter) : Bool := f.included.isEmpty && f.excluded.isEmpty

/-- A path with forward slashes. -/
def forward (path : String) : String :=
  String.ofList (path.toList.map fun c => if c = '\\' then '/' else c)

/-- Does the filter let the path through? -/
def admits (f : PathFilter) (path : String) : Bool :=
  let path := forward path
  (f.included.isEmpty || f.included.any (·.isFound path)) &&
    !f.excluded.any (·.isFound path)

end PathFilter

end ApiDocs
