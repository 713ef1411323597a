import CellScript.Config.Load
import CellScript.Repl
import CellScript.Tree.Decoding
import CellScript.Tree.Encoding
import CellScript.Tree.Outline

/-! The command line: what the arguments ask for, and what is written in answer. -/
namespace CellScript.CommandLine

def toolName : Text := utf8 "dscript"

def version : Text := utf8 "0.1.0-dev"

/-- What is left when a command is done. -/
structure Result where
  code : Nat
  stdout : Text
  stderr : Text
deriving DecidableEq, Repr

namespace Result

def done (stdout stderr : Text) : Result := ⟨0, stdout, stderr⟩

/-- The command failed and has said why. -/
def failed (stdout stderr : Text) : Result := ⟨1, stdout, stderr⟩

/-- The tool itself reports a problem. -/
def complaint (code : Nat) (message : Text) : Result :=
  ⟨code, [], toolName ++ utf8 ": " ++ message ++ [10]⟩

def usage (message : Text) : Result := complaint 2 message

end Result

/-- A flag with the kind of value it takes. -/
inductive FlagKind where
  | switch
  | word
deriving DecidableEq, Repr

inductive FlagError where
  | badSyntax (argument : Text)
  | notDefined (name : Text)
  | badSwitch (name value : Text)
  | needsValue (name : Text)
  /-- Two spellings of one flag are used together. -/
  | twoForms (one other : Text)
deriving DecidableEq, Repr

namespace FlagError

def message : FlagError → Text
  | badSyntax argument => utf8 "bad flag syntax: " ++ argument
  | notDefined name => utf8 "flag provided but not defined: -" ++ name
  | badSwitch name value =>
    utf8 "invalid boolean value " ++ value.quoted ++ utf8 " for -" ++ name ++ utf8 ": parse error"
  | needsValue name => utf8 "flag needs an argument: -" ++ name
  | twoForms one other =>
    utf8 "Cannot use two forms of the same flag: " ++ other ++ [32] ++ one

end FlagError

def switchValue? (w : Text) : Option Bool :=
  if ["1", "t", "T", "TRUE", "true", "True"].any (utf8 · == w) then some true
  else if ["0", "f", "F", "FALSE", "false", "False"].any (utf8 · == w) then some false
  else none

inductive Argument where
  | plain
  /-- The mark after which nothing is a flag. -/
  | endOfFlags
  | flag (name value : Text)
  /-- A flag whose value is the next argument. -/
  | awaits (name : Text)

/-- Reads one argument. The value of a switch is `true` or `false`. -/
def readArgument (known : List (Text × FlagKind)) (a : Text) : Except FlagError Argument :=
  if a.length < 2 || a.head? ≠ some (byte '-') then .ok .plain
  else if a = utf8 "--" then .ok .endOfFlags
  else
    let body := if (utf8 "--").isPrefixOf a then a.drop 2 else a.drop 1
    let (name, value) := match Text.cut? (byte '=') body with
      | some (name, value) => (name, some value)
      | none => (body, none)
    if name.isEmpty || name.head? = some (byte '-') then .error (.badSyntax a)
    else match known.lookup name, value with
    | none, _ => .error (.notDefined name)
    | some .switch, none => .ok (.flag name (utf8 "true"))
    | some .switch, some w =>
      match switchValue? w with
      | some b => .ok (.flag name (utf8 (if b then "true" else "false")))
      | none => .error (.badSwitch name w)
    | some .word, some w => .ok (.flag name w)
    | some .word, none => .ok (.awaits name)

/-- The flags at the start of the arguments, each with its value, and the arguments after them. -/
def parseFlags (known : List (Text × FlagKind)) :
    List Text → Except FlagError (List (Text × Text) × List Text)
  | [] => .ok ([], [])
  | a :: rest =>
    match readArgument known a with
    | .error e => .error e
    | .ok .plain => .ok ([], a :: rest)
    | .ok .endOfFlags => .ok ([], rest)
    | .ok (.flag name w) =>
      (parseFlags known rest).map fun (flags, args) => ((name, w) :: flags, args)
    | .ok (.awaits name) =>
      match rest with
      | w :: rest => (parseFlags known rest).map fun (flags, args) => ((name, w) :: flags, args)
      | [] => .error (.needsValue name)

def flagValue (flags : List (Text × Text)) (name : String) : Text :=
  (flags.foldl (fun found (n, w) => if n = utf8 name then some w else found) none).getD []

def isOn (flags : List (Text × Text)) (name : String) : Bool :=
  flagValue flags name = utf8 "true"

/-- The switch that asks for help, in its two spellings. -/
def helpFlags : List (Text × FlagKind) := [(utf8 "help", .switch), (utf8 "h", .switch)]

/-- Whether help is asked for. One spelling rules the other out, whatever their values. -/
def asksHelp (flags : List (Text × Text)) : Except FlagError Bool :=
  let given (name : String) : Bool := flags.any (·.1 = utf8 name)
  if given "help" && given "h" then .error (.twoForms (utf8 "help") (utf8 "h"))
  else .ok (isOn flags "help" || isOn flags "h")

/-- Arguments of a command with its flags in front: from the first flag on, everything goes before
the arguments that stood there, up to the mark that ends all flags. -/
def flagsFirst (args : List Text) : List Text :=
  let isFlag (a : Text) : Bool := a.head? == some (byte '-') && a != utf8 "-"
  let front := args.takeWhile (· != utf8 "--")
  let closed := args.drop front.length
  let plain := front.takeWhile (!isFlag ·)
  front.drop plain.length ++ plain ++ closed

def globalFlags : List (Text × FlagKind) :=
  [(utf8 "config", .word), (utf8 "log-level", .word), (utf8 "no-color", .switch)] ++ helpFlags

inductive Command where
  | run | check | ast | execJson | repl | version | help
deriving DecidableEq, Repr

instance : Vocabulary Command where
  all := [.run, .check, .ast, .execJson, .repl, .version, .help]
  spelling c := utf8 (match c with
    | .run => "run" | .check => "check" | .ast => "ast" | .execJson => "exec-json"
    | .repl => "repl" | .version => "version" | .help => "help")

/-- The command that a word names; help has a short name too. -/
def Command.named? (name : Text) : Option Command :=
  if name = utf8 "h" then some .help else Vocabulary.ofText? name

/-- Whether a command does its work without settings. -/
def Command.standsAlone (c : Command) : Bool := c = .version || c = .help

def Command.flags : Command → List (Text × FlagKind)
  | .ast => [(utf8 "json", .switch), (utf8 "optimized", .switch)] ++ helpFlags
  | _ => helpFlags

structure Setup where
  config : Config
  paint : Paint

/-- The settings of the file that is named, or else of the nearest one. -/
def chooseConfig {m : Type → Type} [Monad m] (fs : FileAccess m) (given : Text) :
    m (Except Config.LoadError Config) := do
  let found ← if given.isEmpty then Config.find fs Path.here else pure (.ok (some given))
  match found with
  | .error e => return .error e
  | .ok none => return .ok Config.default
  | .ok (some path) => Config.load fs path

/-- What the global flags ask for. -/
def setup {m : Type → Type} [Monad m] (fs : FileAccess m) (flags : List (Text × Text))
    (color : Bool) : m (Except Result Setup) := do
  let paint : Paint := ⟨color && !isOn flags "no-color"⟩
  match ← chooseConfig fs (flagValue flags "config") with
  | .error e => return .error (.complaint 1 e.message)
  | .ok c =>
    let level := flagValue flags "log-level"
    if level.isEmpty then return .ok ⟨c, paint⟩
    else match LogLevel.ofText level with
    | .ok _ => return .ok ⟨{ c with logLevel := level }, paint⟩
    | .error _ => return .error (.usage (utf8 "invalid --log-level " ++ level.quoted))

/-- The file that a command is about: its argument or, where that is allowed, the entry. -/
def sourceFile (s : Setup) (c : Command) (allowEntry : Bool) (args : List Text) :
    Except Result Text :=
  let name := Vocabulary.spelling c
  match args with
  | [path] => .ok path
  | [] =>
    if allowEntry && !s.config.entryPath.isEmpty then .ok s.config.entryPath
    else .error (.usage (name ++ utf8 " requires a source file"))
  | _ => .error (.usage (name ++ utf8 " accepts a single source file"))

/-- The content of a source file, or what is said if it cannot be read. -/
def readSource (paint : Paint) (path : Text) (e : FileEntry) : Except Result Text :=
  let refuse (cause : Text) : Except Result Text :=
    .error (.failed [] (paint.error (utf8 "error: read " ++ path ++ utf8 ": " ++ cause) ++ [10]))
  match e, e.openCause? with
  | .file content, _ => .ok content
  | _, some cause => refuse (utf8 "open " ++ path ++ utf8 (": " ++ cause))
  | _, none => refuse (utf8 "read " ++ path ++ utf8 ": is a directory")

def Setup.session (s : Setup) : Session := .start s.config []

def runSource (s : Setup) (path source stdin : Text) : Result :=
  let (report, session) := s.session.run (.fresh (.bytes stdin)) (.unlimited true) path source
  let stdout := if report.ran then session.output else []
  let stderr := s.paint.diagnostics report.diagnostics
  if report.failure.isSome then .failed stdout stderr else .done stdout stderr

/-- Checks a source, whatever the settings say. -/
def checkSource (s : Setup) (path source : Text) : Result :=
  match Parser.parse source with
  | .error e => .failed [] (s.paint.diagnostics [.syntaxError path e.message e.span])
  | .ok p =>
    let ds := s.session.check path p
    let stderr := s.paint.diagnostics ds
    if Diagnostic.anyError ds then .failed [] stderr else .done (path ++ utf8 ": ok\n") stderr

def showTree (s : Setup) (json optimized : Bool) (path source : Text) : Result :=
  match Parser.parse source with
  | .error e => .failed [] (s.paint.diagnostics [.syntaxError path e.message e.span])
  | .ok p =>
    let p := if optimized then s.session.optimize p else p
    if json then
      match p.encode? .parsed with
      | some t => .done t []
      | none => .complaint 1 (utf8 "tree has no JSON")
    else .done p.outline []

/-- What is said of a file that holds no JSON, or nothing at all; a directory holds nothing. -/
def noJson (vacant : Bool) : Text :=
  utf8 "ast: decode json: " ++ utf8 (if vacant then "EOF" else "invalid JSON")

def runTree (s : Setup) (path : Text) (e : FileEntry) (stdin : Text) : Result :=
  let refuse (what : String) (cause : Text) : Result :=
    .failed [] (s.paint.error (utf8 ("error: " ++ what ++ " ") ++ path ++ utf8 ": " ++ cause) ++ [10])
  match e, e.openCause? with
  | _, some cause => refuse "open" (utf8 "open " ++ path ++ utf8 (": " ++ cause))
  | .file content, none =>
    match Decoding.decode content with
    | .error (.notTree e) => refuse "decode" e.message
    | .error .notJson => refuse "decode" (noJson (Json.isVacant content))
    | .ok p =>
      let session := s.session
      let ds := if s.config.check then session.check path p else []
      let stderr := s.paint.diagnostics ds
      if Diagnostic.anyError ds then .failed [] stderr
      else
        let (outcome, session) := session.execute (.fresh (.bytes stdin)) (.unlimited true) p
        let more := Session.outcomeDiagnostics path outcome
        let stderr := stderr ++ s.paint.diagnostics more
        if more.isEmpty then .done session.output stderr else .failed session.output stderr
  | _, none => refuse "decode" (noJson true)

def interact (s : Setup) (stdin : Text) : Result :=
  let lines := stdin.splitOn 10
  let lines := if lines.getLast? = some [] then lines.dropLast else lines
  let st := Repl.run s.paint s.config (lines.map .text)
  .done (toolName ++ [32] ++ version ++ utf8 ". Type :quit to exit.\n" ++ st.stdout) st.stderr

def help : Text :=
  utf8 "usage: dscript [--config FILE] [--log-level LEVEL] [--no-color] COMMAND\n" ++
  utf8 "commands: run, check, ast, exec-json, repl, version, help\n"

/-- Help on a topic: every command is one. -/
def helpOn : List Text → Result
  | topic :: _ =>
    if (Command.named? topic).isSome then .done help []
    else ⟨3, [], utf8 "No help topic for '" ++ topic ++ utf8 "'\n"⟩
  | [] => .done help []

/-- Carries out a command. Input is taken only by commands that run something. -/
def perform {m : Type → Type} [Monad m] (fs : FileAccess m) (stdin : m Text) (s : Setup)
    (c : Command) (flags : List (Text × Text)) (args : List Text) : m Result := do
  let withFile (allowEntry : Bool) (f : Text → FileEntry → m Result) : m Result := do
    match sourceFile s c allowEntry args with
    | .error r => return r
    | .ok path => f path (← fs.entry path)
  let withSource (allowEntry : Bool) (f : Text → Text → m Result) : m Result :=
    withFile allowEntry fun path e =>
      match readSource s.paint path e with
      | .error r => return r
      | .ok source => f path source
  match c with
  | .run => withSource true fun path source => return runSource s path source (← stdin)
  | .check => withSource true fun path source => return checkSource s path source
  | .ast =>
    withSource false fun path source =>
      return showTree s (isOn flags "json") (isOn flags "optimized") path source
  | .execJson => withFile false fun path e => return runTree s path e (← stdin)
  | .repl => return interact s (← stdin)
  | .version => return .done (toolName ++ [32] ++ version ++ [10]) []
  | .help => return helpOn args

/-- The flags at the start of the arguments and what follows them, unless that already settles
what the command comes to: the flags are wrong, or they ask for help. -/
def takeFlags (known : List (Text × FlagKind)) (args : List Text) :
    Except Result (List (Text × Text) × List Text) := do
  let (flags, args) ← (parseFlags known args).mapError fun e => .usage e.message
  if ← (asksHelp flags).mapError fun e => .usage e.message then throw (.done help [])
  return (flags, args)

def run {m : Type → Type} [Monad m] (fs : FileAccess m) (args : List Text) (stdin : m Text)
    (color : Bool) : m Result := do
  match takeFlags globalFlags args with
  | .error r => return r
  | .ok (_, []) => return .done help []
  | .ok (flags, name :: args) =>
    match Command.named? name with
    | none => return .usage (utf8 "unknown command " ++ name.quoted)
    | some c =>
      match takeFlags c.flags (flagsFirst args) with
      | .error r => return r
      | .ok (own, args) =>
        if c.standsAlone then perform fs stdin ⟨.default, ⟨false⟩⟩ c own args
        else match ← setup fs flags color with
        | .error r => return r
        | .ok s => perform fs stdin s c own args

end CellScript.CommandLine
