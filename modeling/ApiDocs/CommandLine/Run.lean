import ApiDocs.CommandLine.Arguments
import ApiDocs.CommandLine.Failure
import ApiDocs.Config.Discovery
import ApiDocs.Docs.Codec

/-!
# A run

A run loads the configuration, binds the sources that it names, extracts their documentation, and
prints it or writes it to a file. It asks for files through `MonadFiles` only, and what it prints is
its result.

## Main definitions

* `loadConfig`: the configuration of a request.
* `extractDocs`: the documentation that a configuration asks for, written or to be printed.
* `run`: both.
-/

namespace ApiDocs.CommandLine

variable {m : Type → Type} [Monad m] [MonadFiles m]

/-- What a run has to say. -/
inductive Outcome where
  /-- The documentation itself. -/
  | printed (text : String)
  /-- The path that it was written to. -/
  | wrote (path : String)
  deriving DecidableEq, Repr, Inhabited

namespace Outcome

/-- What is printed as the result. -/
def result : Outcome → String
  | printed text => text ++ "\n"
  | wrote _ => ""

/-- What is printed as a notice. -/
def notice : Outcome → String
  | printed _ => ""
  | wrote path => "✓ Wrote " ++ path ++ "\n"

end Outcome

/-- An action that may fail, with its failure seen as one of the run. -/
def attempt (wrap : ε → Failure) (action : m (Except ε α)) : ExceptT Failure m α :=
  ExceptT.mk do return (← action).mapError wrap

/-- The directory that paths of a request are seen from. -/
def ExtractRequest.directory (r : ExtractRequest) : m String :=
  match r.cwd with
  | some path => pure path
  | none => MonadFiles.workingDirectory

/-- Where the configuration of a request is looked for. -/
def ExtractRequest.search (r : ExtractRequest) (directory : String) : ConfigSearch where
  root := directory
  given := r.config.map (pathIn directory)
  overrides := r.overrides

/-- **The configuration of a request.** -/
def loadConfig (r : ExtractRequest) (env : List (String × String)) :
    ExceptT Failure m DocsConfig := do
  let directory ← r.directory (m := m)
  attempt .config ((r.search directory).load (m := m) env).run

/-- The hint to a configuration that is refused. -/
def sourcesHint : String := "pass source files or set 'sources' in tydoc.toml"

/-- Read the sources into a binder. -/
def readSources (directory : String) (sources : List String) : ExceptT Failure m Binder :=
  sources.foldlM (fun b source => do
    let text ← attempt (fun e => (Failure.file e).atPath source)
      (MonadFiles.read (m := m) (pathIn directory source))
    attempt .binding (pure (b.addSource source text))) {}

/-- The documentation that a configuration asks for. -/
def document (r : ExtractRequest) (c : DocsConfig) (binder : Binder) :
    Except Failure Documentation := do
  let binder :=
    match c.layout with
    | some layout => binder.withLayout layout
    | none => binder
  let graph ← binder.bind.mapError .binding
  let options ← c.extractOptions.mapError .config
  let docs ← (graph.extract options).mapError .extraction
  return if r.keepEmpty then docs else docs.discardEmptyModules

/-- Write a file and the directories that it lies in. -/
def writeOutput (path text : String) : ExceptT Failure m Unit := do
  let directory := String.ofList (SourcePath.directory path.toList)
  attempt (fun e => (Failure.file e).atPath directory)
    (MonadFiles.makeDirectories (m := m) directory)
  attempt (fun e => (Failure.file e).atPath path) (MonadFiles.write (m := m) path text)

/-- **The documentation that a configuration asks for,** written or to be printed. `now` is the
time that is noted in it. -/
def extractDocs (r : ExtractRequest) (c : DocsConfig) (now : String) :
    ExceptT Failure m Outcome := do
  attempt (fun e => (Failure.config e).withHint sourcesHint) (pure c.validate)
  let directory ← r.directory (m := m)
  let binder ← readSources directory c.sources
  let docs ← attempt id (pure (document r c binder))
  let text := docs.render now c.pretty
  match c.output with
  | some output =>
    let path := pathIn directory output
    writeOutput path text
    return .wrote path
  | none => return .printed text

/-- **A run.** -/
def run (r : ExtractRequest) (env : List (String × String)) (now : String) :
    ExceptT Failure m Outcome := do
  extractDocs r (← loadConfig r env) now

end ApiDocs.CommandLine
