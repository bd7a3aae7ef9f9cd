import ApiDocs.Extract.Walk

/-!
# Extraction

The documentation of a program has one record for each export of each file but the library, in the
order of the files and, within a file, of the names. Files may be left out by a filter on the paths
they are emitted to.

## Main definitions

* `ExtractOptions`: the filter, and how many aliases may be passed.
* `SymbolGraph.extract`: the documentation of a program.
-/

namespace ApiDocs

/-- Options of extraction. The filter is asked only if the extension of emitted files is known. -/
structure ExtractOptions where
  filter : Option (String → Bool) := none
  extension : Option String := none
  maxAliasDepth : Nat := 64

namespace ExtractOptions

/-- Options without what cannot be shown of a filter. -/
def summary (o : ExtractOptions) : String :=
  let filter := if o.filter.isSome then "Some(\"<fn>\")" else "None"
  let extension :=
    match o.extension with
    | some e => "Some(" ++ Text.quoted e ++ ")"
    | none => "None"
  "ExtractOptions \x7b name_filter: " ++ filter ++ ", extension: " ++ extension ++
    ", max_alias_depth: " ++ toString o.maxAliasDepth ++ " \x7d"

end ExtractOptions

namespace SymbolGraph

variable (g : SymbolGraph)

/-- The files that may be documented: all but the library. -/
def ownFiles : List SourceFile := g.files.drop 1

/-- The emitted paths that the filter is asked about, in order. -/
def consulted (o : ExtractOptions) : List String :=
  match o.filter, o.extension with
  | some _, some extension => g.ownFiles.map fun f => g.outputPath f.path extension
  | _, _ => []

/-- Is the file documented? -/
def accepts (o : ExtractOptions) (file : SourceFile) : Bool :=
  match o.filter, o.extension with
  | some filter, some extension => filter (g.outputPath file.path extension)
  | _, _ => true

/-- The exports of a file in the order of their names. -/
def sortedExports (file : SourceFile) : Except ExtractError (List (String × SymbolId)) :=
  match file.symbol with
  | none => return []
  | some id => return (← g.getSymbol id).exports.entries.mergeSort fun a b => a.1 ≤ b.1

/-- The record of one export; none if it resolves to nothing that is declared. -/
def documentExport (o : ExtractOptions) (entry : String × SymbolId) : Walk (List ModuleDoc) := do
  match ← g.resolveAlias o.maxAliasDepth entry.1 entry.2 with
  | none => return []
  | some id =>
    let v ← g.view id
    if v.declaration.isNone then return []
    return [← Walk.assemble g o.maxAliasDepth (g.symbols.size + 1) v {}]

/-- The records of one file. -/
def documentFile (o : ExtractOptions) (file : SourceFile) : Walk (List ModuleDoc) := do
  let exports ← g.sortedExports file
  return (← exports.mapM (g.documentExport o)).flatten

/-- **The documentation of a program.** -/
def extract (o : ExtractOptions) : Except ExtractError Documentation := do
  let files := g.ownFiles.filter (g.accepts o)
  let (modules, s) ← (files.mapM (g.documentFile o)).run {}
  return { ← s.finish with modules := modules.flatten }

end SymbolGraph

end ApiDocs
