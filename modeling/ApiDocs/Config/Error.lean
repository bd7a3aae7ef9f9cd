import ApiDocs.Files
import ApiDocs.PathFilter

/-!
# Failures of configuration

## Main definitions

* `ConfigError`: why a configuration is refused.
* `ConfigError.message`: what is said about it.
-/

namespace ApiDocs

/-- Why a configuration is refused. -/
inductive ConfigError where
  | fileNotFound (path : String)
  | invalidValue (field hint : String)
  | invalidPattern (error : PatternError)
  | noSources
  | unreadable (error : FileError)
  deriving DecidableEq, Repr, Inhabited

/-- What is said about a failure. -/
def ConfigError.message : ConfigError → String
  | fileNotFound path => "config file not found: " ++ path
  | invalidValue field hint => "invalid config value for '" ++ field ++ "': " ++ hint
  | invalidPattern e =>
    "invalid " ++ e.field.text ++ " pattern '" ++ e.text ++ "': not a regular expression"
  | noSources => "no sources specified"
  | unreadable e => "I/O error: " ++ e.message

end ApiDocs
