import ApiDocs.Config.Error
import ApiDocs.Extract.Run
import ApiDocs.Json.Record

/-!
# Configuration

A configuration says which sources are documented, which of them are filtered out by the paths of
their emitted files, and how and where the documentation is written.

A filter needs the extension of emitted files. So a configuration with patterns and without an
extension takes the extension of plain scripts: patterns are never left unused.

## Main definitions

* `DocsConfig`: a configuration.
* `DocsConfig.ofJson?`, `DocsConfig.toJson`: the written form.
* `DocsConfig.layout`, `DocsConfig.extractOptions`: what it means for binding and extraction.
* `DocsConfig.validate`: what is refused before any source is read.
-/

namespace ApiDocs

open Number (twoTo)

/-- Settings of the process, which extraction does not depend on. -/
structure Settings where
  logLevel : Option String := none
  deriving DecidableEq, Repr, Inhabited

/-- A configuration. -/
structure DocsConfig where
  /-- Paths of sources, seen from the working directory. -/
  sources : List String := []
  /-- Patterns of emitted paths, some of which a source has to match. -/
  included : List String := []
  /-- Patterns of emitted paths, none of which a source may match. -/
  excluded : List String := []
  /-- The extension of emitted files. -/
  extension : Option String := none
  rootDir : Option String := none
  outDir : Option String := none
  maxAliasDepth : Nat := 64
  /-- The file that the documentation is written to; without one it is printed. -/
  output : Option String := none
  pretty : Bool := true
  settings : Settings := {}
  deriving DecidableEq, Repr, Inhabited

/-! ## Written form -/

/-- The settings that a value holds. -/
def Settings.ofJson? (j : Json) : Option Settings := do
  let r ← Json.record? [("log_level", .defaulted)] j
  return { logLevel := ← r.optional "log_level" Json.str? }

/-- The settings that a layer holds: of an array, only the fields that there are count. -/
def Settings.ofLayer? : Json → Option Settings
  | .arr items => Settings.ofJson? (.arr (items.take 1))
  | j => Settings.ofJson? j

/-- Settings as a value. -/
def Settings.toJson (s : Settings) : Json := .obj [("log_level", Json.ofOption .str s.logLevel)]

namespace DocsConfig

/-- The names of the fields, in order. -/
def fieldNames : List String :=
  ["sources", "include", "exclude", "extension", "root_dir", "out_dir", "max_alias_depth", "output",
    "pretty", "settings"]

/-- All fields have defaults. -/
def fieldRules : List Json.FieldRule := fieldNames.map fun name => (name, .defaulted)

/-- The configuration that a value holds, by a reader of its settings. -/
def ofJsonWith? (settings : Json → Option Settings) (j : Json) : Option DocsConfig := do
  let r ← Json.record? fieldRules j
  return {
    sources := ← r.defaulted "sources" (Json.list? Json.str?) []
    included := ← r.defaulted "include" (Json.list? Json.str?) []
    excluded := ← r.defaulted "exclude" (Json.list? Json.str?) []
    extension := ← r.optional "extension" Json.str?
    rootDir := ← r.optional "root_dir" Json.str?
    outDir := ← r.optional "out_dir" Json.str?
    maxAliasDepth := ← r.defaulted "max_alias_depth" (Json.below? (twoTo 64)) 64
    output := ← r.optional "output" Json.str?
    pretty := ← r.defaulted "pretty" Json.bool? true
    settings := ← r.defaulted "settings" settings {} }

/-- The configuration that a value holds. -/
def ofJson? : Json → Option DocsConfig := ofJsonWith? Settings.ofJson?

/-- The configuration that layers laid over one another hold. -/
def ofLayers? : Json → Option DocsConfig := ofJsonWith? Settings.ofLayer?

/-- The configuration of a value, or the error that it holds none. -/
def ofValue (j : Json) : Except ConfigError DocsConfig :=
  match ofJson? j with
  | some c => .ok c
  | none => .error (.invalidValue "config" "a field has a wrong type")

/-- A configuration as a value, with all of its fields. -/
def toJson (c : DocsConfig) : Json :=
  .obj
    [("sources", Json.strs c.sources),
      ("include", Json.strs c.included),
      ("exclude", Json.strs c.excluded),
      ("extension", Json.ofOption .str c.extension),
      ("root_dir", Json.ofOption .str c.rootDir),
      ("out_dir", Json.ofOption .str c.outDir),
      ("max_alias_depth", .nat c.maxAliasDepth),
      ("output", Json.ofOption .str c.output),
      ("pretty", .bool c.pretty),
      ("settings", c.settings.toJson)]

/-! ## Meaning -/

/-- Where emitted files go, if a directory for them is given. -/
def layout (c : DocsConfig) : Option OutputLayout :=
  c.outDir.map fun out => ⟨c.rootDir.getD "", out⟩

/-- The filter of emitted paths. -/
def filter (c : DocsConfig) : Except ConfigError PathFilter :=
  (PathFilter.ofTexts c.included c.excluded).mapError .invalidPattern

/-- The extension that is assumed for a filter. -/
def assumedExtension : String := ".js"

/-- The options of extraction. -/
def extractOptions (c : DocsConfig) : Except ConfigError ExtractOptions := do
  let filter ← c.filter
  if filter.isEmpty then
    return { extension := c.extension, maxAliasDepth := c.maxAliasDepth }
  else
    return {
      filter := some filter.admits
      extension := some (c.extension.getD assumedExtension)
      maxAliasDepth := c.maxAliasDepth }

/-- What is said about an extension without a dot. -/
def extensionHint (extension : String) : String :=
  "'" ++ extension ++ "' should start with a dot, e.g. '." ++ extension ++ "'"

/-- **What is refused before any source is read:** no sources, no aliases to pass, an extension
without a dot, and patterns that are none, in this order. -/
def validate (c : DocsConfig) : Except ConfigError Unit := do
  if c.sources.isEmpty then throw .noSources
  if c.maxAliasDepth = 0 then throw (.invalidValue "max_alias_depth" "must be at least 1")
  if let some extension := c.extension then
    if extension.toList.head? ≠ some '.' then
      throw (.invalidValue "extension" (extensionHint extension))
  discard c.filter

end DocsConfig

end ApiDocs
