import ApiDocs.Config.Basic
import ApiDocs.Config.Environment
import ApiDocs.Json.Reader
import ApiDocs.Toml.Reader

/-!
# Finding and loading a configuration

A configuration is made of four layers: the defaults, a file, the environment, and overrides. The
file is given, or it is the first of two in the root directory: `tydoc.toml`, or a `package.json`
with a field `tydoc`. A field is taken from the highest layer that has it.

## Main definitions

* `ConfigLayers`: the layers over the defaults.
* `ConfigLayers.config`: the configuration that they make.
* `ConfigSearch`: where to look.
* `ConfigSearch.find`: the file that is there.
* `ConfigSearch.load`: the configuration.
-/

namespace ApiDocs

/-- The layers over the defaults, from the lowest to the highest. -/
structure ConfigLayers where
  file : Json := .obj []
  environment : Json := .obj []
  overrides : Json := .obj []
  deriving Repr

namespace ConfigLayers

/-- All layers with the defaults under them. -/
def value (l : ConfigLayers) : Json :=
  Json.layered [({} : DocsConfig).toJson, l.file, l.environment, l.overrides]

/-- The error of layers that do not make a configuration. -/
def refused : ConfigError := .invalidValue "configuration" "a field has a wrong type"

/-- The configuration that layers make. -/
def config (l : ConfigLayers) : Except ConfigError DocsConfig :=
  match DocsConfig.ofLayers? l.value with
  | some c => .ok c
  | none => .error refused

end ConfigLayers

/-- The name of the file of a configuration of its own. -/
def configFile : String := "tydoc.toml"

/-- The name of the file of a package. -/
def packageFile : String := "package.json"

/-- The field of a package that holds a configuration. -/
def packageField : String := "tydoc"

/-- The path of a file in a directory. -/
def pathIn (directory path : String) : String :=
  String.ofList (SourcePath.join directory.toList path.toList)

/-- Is the path that of a package? -/
def isPackagePath (path : String) : Bool :=
  (SourcePath.components path.toList).getLast? = some (.name packageFile.toList)

/-- The text of a package, with no member repeated. -/
def packageValue? (text : String) : Option Json := (Json.parse? text).map Json.distinct

/-- The layer in a package. -/
def packageLayer (text : String) : Except ConfigError Json :=
  match packageValue? text with
  | none => .error (.invalidValue packageFile "invalid JSON")
  | some package =>
    match package.field? packageField with
    | some (.obj members) => .ok (.obj members)
    | _ => .error (.invalidValue packageField "add a 'tydoc' object to your package.json")

/-- Does a package hold a configuration? -/
def holdsConfig (text : String) : Bool :=
  match (packageValue? text).bind (Json.field? packageField) with
  | none => false
  | some .null => false
  | some _ => true

/-- Where to look for a configuration. -/
structure ConfigSearch where
  root : String
  /-- A file to be used instead of searching. -/
  given : Option String := none
  /-- Values over all others; only an object counts. -/
  overrides : Json := .null
  deriving Repr

namespace ConfigSearch

variable {m : Type → Type} [Monad m] [MonadFiles m]

open MonadFiles

/-- The file in the root directory. -/
def find (s : ConfigSearch) : m (Option String) := do
  let own := pathIn s.root configFile
  if ← pathExists own then return some own
  let package := pathIn s.root packageFile
  match ← read package with
  | .ok text => return if holdsConfig text then some package else none
  | .error _ => return none

/-- The layer in a file. A directory counts as an empty file. -/
def fileLayer (path : String) : ExceptT ConfigError m Json := do
  if isPackagePath path then
    match ← liftM (read (m := m) path) with
    | .ok text => ExceptT.mk (pure (packageLayer text))
    | .error e => throw (.unreadable e)
  else if ← liftM (isFile (m := m) path) then
    match ← liftM (read (m := m) path) with
    | .ok text =>
      match Toml.parse? text with
      | some j => return j
      | none => throw ConfigLayers.refused
    | .error _ => throw ConfigLayers.refused
  else return .obj []

/-- The file to be used: the one that is given, which has to be there, or the one that is found. -/
def file (s : ConfigSearch) : ExceptT ConfigError m (Option String) := do
  match s.given with
  | some path =>
    if ← liftM (pathExists (m := m) path) then return some path else throw (.fileNotFound path)
  | none => s.find (m := m)

/-- The layer of overrides. -/
def overrideLayer (s : ConfigSearch) : Json :=
  match s.overrides with
  | .obj members => .obj members
  | _ => .obj []

/-- All layers. -/
def layers (s : ConfigSearch) (env : List (String × String)) :
    ExceptT ConfigError m ConfigLayers := do
  let file ← match ← s.file (m := m) with
    | some path => fileLayer path
    | none => pure (.obj [])
  return { file, environment := Environment.layer env, overrides := s.overrideLayer }

/-- **The configuration.** A missing file is an error only if it was given. -/
def load (s : ConfigSearch) (env : List (String × String)) : ExceptT ConfigError m DocsConfig := do
  let layers ← s.layers (m := m) env
  ExceptT.mk (pure layers.config)

end ConfigSearch

end ApiDocs
