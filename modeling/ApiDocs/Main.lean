import ApiDocs.CommandLine.Run
import Std.Time.DateTime
import Std.Time.Format
import Std.Time.Zoned

/-!
# The program

The command line on real files: arguments, environment and clock are read here, and results and
failures are printed. Everything else is done by `ApiDocs.CommandLine`.
-/

namespace ApiDocs.Program

open CommandLine

/-- A failure of the system as one of a file. -/
def fileError (e : IO.Error) : FileError :=
  match e with
  | .noFileOrDirectory .. => .notFound
  | .permissionDenied .. => .denied
  | .alreadyExists .. => .alreadyThere
  | .inappropriateType .. => .isDirectory
  | _ => ⟨.other, toString e⟩

/-- An action on files with its failure as a value. -/
def guarded (action : IO α) : IO (Except FileError α) := do
  try return .ok (← action)
  catch e => return .error (fileError e)

/-- What stands at a path. -/
def kindOf (path : String) : IO (Option IO.FS.FileType) := do
  if path.isEmpty then return none
  let place := (← IO.currentDir) / path
  match ← guarded place.metadata with
  | .ok d => return some d.type
  | .error _ => return none

instance : MonadFiles IO where
  isFile path := return (← kindOf path) == some .file
  isDirectory path := return (← kindOf path) == some .dir
  read path := guarded (IO.FS.readFile path)
  write path content := guarded (IO.FS.writeFile path content)
  makeDirectories path :=
    if path.isEmpty then return .ok () else guarded (IO.FS.createDirAll path)
  workingDirectory := return (← IO.currentDir).toString

/-- The variables of the environment of this process. -/
def environment : IO (List (String × String)) := do
  match ← guarded (IO.FS.readBinFile "/proc/self/environ") with
  | .error _ => return []
  | .ok bytes =>
    let text := (String.fromUTF8? bytes).getD ""
    return (text.splitOn "\x00").filterMap fun entry =>
      match entry.toList.dropWhile (· ≠ '=') with
      | [] => none
      | _ :: value =>
        some (String.ofList (entry.toList.takeWhile (· ≠ '=')), String.ofList value)

/-- The time, as it is noted in documentation. -/
def now : IO String := do
  let t ← Std.Time.Timestamp.now
  return (Std.Time.DateTime.ofTimestamp t .UTC).format "uuuu-MM-dd'T'HH:mm:ss.SSSSSSSSSxxx"

/-- The version of the program. -/
def version : String := "0.1.0"

/-- What is shown as help. -/
def helpText : String :=
  "\n".intercalate
    ["Extract a documentation model from TypeScript sources",
      "",
      "Usage: tydoc [OPTIONS] extract [OPTIONS] [FILES]...",
      "",
      "Options:",
      "  -c, --config <PATH>    Path to a config file, instead of searching for tydoc.toml",
      "  -o, --out <PATH>       Write the JSON model here instead of standard output",
      "      --extension <EXT>  Extension of emitted files, used by path filters",
      "      --include <RE>     Document only sources whose emitted path matches this regex",
      "      --exclude <RE>     Skip sources whose emitted path matches this regex",
      "      --compact          Emit compact JSON",
      "      --keep-empty       Keep module records for exports that produced no entities",
      "      --cwd <DIR>        Working directory for config discovery and relative paths",
      "  -v, --verbose          Enable verbose logging",
      "  -q, --quiet            Suppress all output except errors",
      "      --no-color         Disable colored output",
      "  -h, --help             Print help",
      "  -V, --version          Print version",
      ""]

/-- What is said about an option. -/
def optionText (name : OptionName) : String :=
  match (filesRule :: programRules ++ extractRules).find? (·.name = name) with
  | some r =>
    match r.long with
    | some long => "--" ++ long
    | none => "[FILES]..."
  | none => ""

/-- What is said about words that are refused. -/
def usageText : UsageError → String
  | .help => helpText
  | .version => "tydoc " ++ version ++ "\n"
  | .unknownArgument word => "error: unexpected argument '" ++ word ++ "' found\n"
  | .unknownCommand word => "error: unrecognized subcommand '" ++ word ++ "'\n"
  | .invalidValue name => "error: a value is required for '" ++ optionText name ++ "'\n"
  | .conflict name => "error: the argument '" ++ optionText name ++ "' cannot be used here\n"
  | .unwantedValue name => "error: unexpected value for '" ++ optionText name ++ "' found\n"
  | .missingCommand => "error: 'tydoc' requires a subcommand but one was not provided\n"
  | .missingArguments => helpText

/-- Refuse words: help that was asked for is a result, all else is a failure. -/
def refuse (e : UsageError) : IO UInt32 := do
  if e = .help || e = .version then
    (← IO.getStdout).putStr (usageText e)
    return 0
  else
    (← IO.getStderr).putStr (usageText e)
    return 2

/-- Answer a command line. -/
def answer (words : List String) : IO UInt32 := do
  match Invocation.parse words with
  | .error e => refuse e
  | .ok i =>
    match ← (CommandLine.run (m := IO) i.request (← environment) (← now)).run with
    | .ok o =>
      (← IO.getStdout).putStr o.result
      (← IO.getStderr).putStr o.notice
      return 0
    | .error f =>
      (← IO.getStderr).putStr ("Error: " ++ f.report ++ "\n")
      return 1

end ApiDocs.Program

/-- The program. -/
def main (words : List String) : IO UInt32 := ApiDocs.Program.answer words
