import ApiDocs.Graph.Basic

/-!
# Paths of modules

An import names a module by a path relative to the importing source. The path may leave out the
extension, name a directory for its index, or end in the extension of the emitted file.

## Main definitions

* `ModulePath.candidates`: the paths that a specifier may mean, the best first.
* `ModulePath.resolve?`: the module that a specifier means.
-/

namespace ApiDocs.ModulePath

/-- What may be missing at the end of a specifier. -/
def endings : List String :=
  ["", ".ts", ".tsx", ".d.ts", "/index.ts", "/index.tsx", "/index.d.ts"]

/-- The extensions of emitted files. -/
def emittedExtensions : List String := [".js", ".jsx", ".mjs"]

/-- Does the specifier name a path relative to the importing source? -/
def isRelative (specifier : String) : Bool :=
  "./".toList.isPrefixOf specifier.toList || "../".toList.isPrefixOf specifier.toList

/-- The path that a specifier names, in normal form. -/
def target (source specifier : String) : String :=
  SourcePath.normalize
    (String.ofList (SourcePath.join (SourcePath.parent source.toList) specifier.toList))

/-- A path, and the path without the extension of an emitted file. -/
def stems (path : String) : List String :=
  path :: emittedExtensions.filterMap fun extension =>
    (Text.stripEnd? extension.toList path.toList).map String.ofList

/-- The paths that a specifier may mean, the best first. -/
def candidates (source specifier : String) : List String :=
  (stems (target source specifier)).flatMap fun stem => endings.map (stem ++ ·)

/-- The module that a specifier in a source means. -/
def resolve? (modules : Table String SymbolId) (source specifier : String) : Option SymbolId :=
  if isRelative specifier then (candidates source specifier).findSome? modules.get? else none

end ApiDocs.ModulePath
