import ApiDocs.Binding.Binder
import ApiDocs.Config.Error
import ApiDocs.Extract.Error

/-!
# Failures of a run

A run fails for a cause of one of its parts. On the way out a failure may be given the path that it
is about, a hint, or a context; the last two turn it into a text.

## Main definitions

* `Failure`: why a run failed.
* `Failure.message`, `Failure.report`: what is said about it, in short and to the user.
* `Failure.atPath`, `Failure.withHint`, `Failure.inContext`: what is added on the way.
-/

namespace ApiDocs.CommandLine

/-- Why a run failed. -/
inductive Failure where
  | config (error : ConfigError)
  | binding (error : BindError)
  | extraction (error : ExtractError)
  | invalidArgument (text : String)
  | fileNotFound (path : String)
  | file (error : FileError)
  | custom (text : String)
  deriving DecidableEq, Repr

namespace Failure

/-- What is said about a failure. -/
def message : Failure → String
  | config e => "Configuration error: " ++ e.message
  | binding e => e.message
  | extraction e => "Extraction failed: " ++ e.message
  | invalidArgument text => "Invalid argument: " ++ text
  | fileNotFound path => "File not found: " ++ path
  | file e => "I/O error: " ++ e.message
  | custom text => text

/-- A text and a hint below it. -/
def hinted (text hint : String) : String := text ++ "\n\nHint: " ++ hint

/-- What the user is told. -/
def report : Failure → String
  | binding (.unparsable path complaints) =>
    hinted ("Failed to parse " ++ path ++ ":\n" ++ "; ".intercalate complaints)
      "tydoc reads TypeScript syntax only"
  | extraction (.aliasCycle _ chain) =>
    hinted ("Export alias cycle: " ++ ExtractError.chainText chain)
      "one of these re-exports must point at a declaration"
  | f => f.message

/-- A missing file is reported by its path. -/
def atPath (path : String) : Failure → Failure
  | file e => if e.kind = .notFound then fileNotFound path else file e
  | f => f

/-- Add a hint. -/
def withHint (hint : String) (f : Failure) : Failure := custom (hinted f.message hint)

/-- Say what was going on. -/
def inContext (context : String) (f : Failure) : Failure := custom (context ++ ": " ++ f.message)

end Failure

end ApiDocs.CommandLine
