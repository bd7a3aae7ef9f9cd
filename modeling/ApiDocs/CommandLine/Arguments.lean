import ApiDocs.Json.Basic

/-!
# Arguments

The words of a command line are options and files. An option is given by its long name behind two
dashes or by its letter behind one; letters may be written together, and a value may be written
behind an equals sign, behind a letter, or as the next word. Two dashes alone end the options.

A value is checked when it is known to be complete, that is, when the next option or the end of the
words is reached. So of several faults the one that is reported is not always the first one written.

## Main definitions

* `OptionRule`: an option and what it takes.
* `UsageError`: why words are refused, or that help was asked for.
* `readWords`: the options that words give.
* `Invocation.parse`: what a command line asks for.
-/

namespace ApiDocs.CommandLine

/-- The options, and the files. -/
inductive OptionName where
  | verbose
  | quiet
  | noColor
  | help
  | version
  | config
  | out
  | extension
  | included
  | excluded
  | compact
  | keepEmpty
  | cwd
  | files
  deriving DecidableEq, Repr, Inhabited

/-- What an option takes. -/
inductive Arity where
  /-- No value; it may be given once. -/
  | flag
  /-- One value; it may be given once. -/
  | one
  /-- Values, one each time that it is given. -/
  | many
  deriving DecidableEq, Repr, Inhabited

/-- An option and what it takes. -/
structure OptionRule where
  name : OptionName
  long : Option String := none
  letter : Option Char := none
  arity : Arity := .flag
  /-- A value that is a path is not empty. -/
  isPath : Bool := false
  deriving DecidableEq, Repr, Inhabited

/-- Why words are refused, or that help was asked for. -/
inductive UsageError where
  | help
  | version
  | unknownArgument (word : String)
  | unknownCommand (word : String)
  | invalidValue (option : OptionName)
  | conflict (option : OptionName)
  | unwantedValue (option : OptionName)
  | missingCommand
  | missingArguments
  deriving DecidableEq, Repr, Inhabited

/-! ## Options -/

/-- The options that may stand before and behind the command. -/
def globalRules : List OptionRule :=
  [{ name := .verbose, long := some "verbose", letter := some 'v' },
    { name := .quiet, long := some "quiet", letter := some 'q' },
    { name := .noColor, long := some "no-color" },
    { name := .help, long := some "help", letter := some 'h' }]

/-- The options before the command. -/
def programRules : List OptionRule :=
  globalRules ++ [{ name := .version, long := some "version", letter := some 'V' }]

/-- The options behind the command. -/
def extractRules : List OptionRule :=
  globalRules ++
    [{ name := .config, long := some "config", letter := some 'c', arity := .one, isPath := true },
      { name := .out, long := some "out", letter := some 'o', arity := .one, isPath := true },
      { name := .extension, long := some "extension", arity := .one },
      { name := .included, long := some "include", arity := .many },
      { name := .excluded, long := some "exclude", arity := .many },
      { name := .compact, long := some "compact" },
      { name := .keepEmpty, long := some "keep-empty" },
      { name := .cwd, long := some "cwd", arity := .one, isPath := true }]

/-- The files behind the command. -/
def filesRule : OptionRule := { name := .files, arity := .many, isPath := true }

/-! ## Words -/

/-- The forms of a word. -/
inductive Word where
  | separator
  | long (name : String) (value : Option String)
  | letters (cs : List Char)
  | plain (text : String)
  deriving DecidableEq, Repr

/-- The form of a word. A single dash is plain. -/
def Word.ofString (text : String) : Word :=
  match text.toList with
  | ['-', '-'] => .separator
  | '-' :: '-' :: rest =>
    match rest.dropWhile (· ≠ '=') with
    | [] => .long (String.ofList rest) none
    | _ :: value => .long (String.ofList (rest.takeWhile (· ≠ '='))) (some (String.ofList value))
  | '-' :: c :: rest => .letters (c :: rest)
  | _ => .plain text

/-- The options that are given, and one whose value may still grow. -/
structure Given where
  values : List (OptionName × List String) := []
  pending : Option (OptionRule × List String) := none
  deriving DecidableEq, Repr, Inhabited

namespace Given

/-- Is the option given? -/
def has (g : Given) (name : OptionName) : Bool := g.values.any (·.1 = name)

/-- All values of an option, in order. -/
def valuesOf (g : Given) (name : OptionName) : List String :=
  (g.values.filter (·.1 = name)).flatMap (·.2)

/-- The value of an option that takes one. -/
def value? (g : Given) (name : OptionName) : Option String := (g.valuesOf name).head?

/-- Add an option with its values. -/
def accept (g : Given) (r : OptionRule) (values : List String) : Except UsageError Given :=
  if r.arity ≠ .flag && values.isEmpty then .error (.invalidValue r.name)
  else if r.arity ≠ .many && g.has r.name then .error (.conflict r.name)
  else if r.isPath && values.any String.isEmpty then .error (.invalidValue r.name)
  else
    match r.name with
    | .help => .error .help
    | .version => .error .version
    | name => .ok { g with values := g.values ++ [(name, values)] }

/-- Add the pending option. -/
def settle (g : Given) : Except UsageError Given :=
  match g.pending with
  | none => .ok g
  | some (r, values) => accept { g with pending := none } r values

/-- Settle, then add an option with its values. -/
def give (g : Given) (r : OptionRule) (values : List String) : Except UsageError Given := do
  (← g.settle).accept r values

/-- Settle, then wait for the value of an option. -/
def await (g : Given) (r : OptionRule) : Except UsageError Given := do
  return { ← g.settle with pending := some (r, []) }

/-- Append a value to the pending option. -/
def push (g : Given) (value : String) : Given :=
  { g with pending := g.pending.map fun (r, values) => (r, values ++ [value]) }

end Given

/-- How far words have been read. -/
structure Reading where
  given : Given := {}
  /-- The next word is the value of the pending option, unless it is an option itself. -/
  awaiting : Bool := false
  /-- The options have ended. -/
  trailing : Bool := false
  deriving DecidableEq, Repr, Inhabited

/-- An option by its long name. -/
def readLong (rules : List OptionRule) (name : String) (value : Option String) (g : Given) :
    Except UsageError Reading :=
  match rules.find? (·.long = some name) with
  | none => .error (.unknownArgument ("--" ++ name))
  | some r =>
    match r.arity, value with
    | .flag, some _ => .error (.unwantedValue r.name)
    | .flag, none => return { given := ← g.give r [] }
    | _, some v => return { given := ← g.give r [v] }
    | _, none => return { given := ← g.await r, awaiting := true }

/-- The value behind a letter. -/
def attached (cs : List Char) : String :=
  match cs with
  | '=' :: rest => String.ofList rest
  | _ => String.ofList cs

/-- Options by their letters. The first one that takes a value takes the rest. -/
def readLetters (rules : List OptionRule) : List Char → Given → Except UsageError Reading
  | [], g => .ok { given := g }
  | c :: rest, g =>
    match rules.find? (·.letter = some c) with
    | none => .error (.unknownArgument (String.ofList ['-', c]))
    | some r =>
      if r.arity = .flag then do readLetters rules rest (← g.give r [])
      else if rest.isEmpty then return { given := ← g.await r, awaiting := true }
      else return { given := ← g.give r [attached rest] }

/-- What words may hold. -/
structure Level where
  rules : List OptionRule
  commands : List String := []
  files : Option OptionRule := none
  deriving Repr

/-- The error of a word that is neither option nor command where no files are expected. -/
def Level.refuse (l : Level) (trailing : Bool) (word : String) : UsageError :=
  if l.commands.isEmpty || (trailing && l.commands.contains word) then .unknownArgument word
  else .unknownCommand word

/-- A word that is no option. -/
def Level.readPlain (l : Level) (word : String) (s : Reading) : Except UsageError Reading :=
  if s.awaiting && !s.trailing then .ok { s with given := s.given.push word, awaiting := false }
  else
    match l.files with
    | none => .error (l.refuse s.trailing word)
    | some r => do
      let given ←
        if s.given.pending.any (·.1 = r) then pure s.given else s.given.await r
      return { s with given := given.push word, awaiting := false }

/-- One word. -/
def Level.readWord (l : Level) (word : String) (s : Reading) : Except UsageError Reading :=
  if s.trailing then l.readPlain word s
  else
    match Word.ofString word with
    | .separator => .ok { s with trailing := true }
    | .long name value => readLong l.rules name value s.given
    | .letters cs => readLetters l.rules cs s.given
    | .plain text => l.readPlain text s

/-- **The options that words give,** up to a command. The command comes with the words behind it. -/
def Level.readWords (l : Level) :
    List String → Reading → Except UsageError (Given × Option (String × List String))
  | [], s => return (← s.given.settle, none)
  | word :: words, s =>
    if !s.trailing && !s.awaiting && l.commands.contains word then .ok (s.given, some (word, words))
    else do l.readWords words (← l.readWord word s)

/-! ## Requests -/

/-- What is asked of extraction. -/
structure ExtractRequest where
  files : List String := []
  config : Option String := none
  out : Option String := none
  extension : Option String := none
  included : List String := []
  excluded : List String := []
  compact : Bool := false
  keepEmpty : Bool := false
  cwd : Option String := none
  deriving DecidableEq, Repr, Inhabited

/-- What a command line asks for. -/
structure Invocation where
  verbose : Bool := false
  quiet : Bool := false
  noColor : Bool := false
  request : ExtractRequest := {}
  deriving DecidableEq, Repr, Inhabited

/-- The command that extracts. -/
def extractCommand : String := "extract"

/-- The command that shows help. -/
def helpCommand : String := "help"

/-- The words before the command. -/
def programLevel : Level := { rules := programRules, commands := [extractCommand, helpCommand] }

/-- The words behind the command. -/
def extractLevel : Level := { rules := extractRules, files := some filesRule }

/-- The answer to the help command: help on a command that is there. -/
def helpOn (words : List String) : UsageError :=
  match words with
  | [] => .help
  | [word] => if programLevel.commands.contains word then .help else .unknownCommand word
  | word :: second :: _ =>
    .unknownCommand (if programLevel.commands.contains word then second else word)

/-- Verbose and quiet are not given at one level. -/
def checkConflict (g : Given) : Except UsageError Unit :=
  if g.has .verbose && g.has .quiet then .error (.conflict .quiet) else .ok ()

/-- The request that options give. -/
def ExtractRequest.ofGiven (g : Given) : ExtractRequest where
  files := g.valuesOf .files
  config := g.value? .config
  out := g.value? .out
  extension := g.value? .extension
  included := g.valuesOf .included
  excluded := g.valuesOf .excluded
  compact := g.has .compact
  keepEmpty := g.has .keepEmpty
  cwd := g.value? .cwd

/-- **What a command line asks for.** -/
def Invocation.parse (words : List String) : Except UsageError Invocation := do
  match ← programLevel.readWords words {} with
  | (outer, none) =>
    throw (if outer.values.isEmpty then .missingArguments else .missingCommand)
  | (outer, some (command, words)) =>
    if command = helpCommand then throw (helpOn words)
    let (inner, _) ← extractLevel.readWords words {}
    checkConflict inner
    checkConflict outer
    return {
      verbose := outer.has .verbose || inner.has .verbose
      quiet := outer.has .quiet || inner.has .quiet
      noColor := outer.has .noColor || inner.has .noColor
      request := .ofGiven inner }

/-! ## Overrides -/

/-- A member that is there when the list is not empty. -/
def listMember (name : String) (xs : List String) : List (String × Json) :=
  if xs.isEmpty then [] else [(name, Json.strs xs)]

/-- A member that is there when the value is. -/
def textMember (name : String) (x : Option String) : List (String × Json) :=
  match x with
  | some s => [(name, .str s)]
  | none => []

/-- The fields of the configuration that a request sets. -/
def ExtractRequest.overrides (r : ExtractRequest) : Json :=
  .obj (listMember "sources" r.files ++ listMember "include" r.included ++
    listMember "exclude" r.excluded ++ textMember "extension" r.extension ++
    textMember "output" r.out ++ if r.compact then [("pretty", .bool false)] else [])

end ApiDocs.CommandLine
