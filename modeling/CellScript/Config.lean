import CellScript.Config.Level
import CellScript.Machine
import CellScript.Optimize
import CellScript.Path

/-! Settings of the toolchain. -/
namespace CellScript

structure Config where
  /-- The file that the settings came from; empty if there is none. -/
  path : Text
  entry : Text
  optimize : Bool
  passes : List Text
  check : Bool
  associativity : Text
  maxCallDepth : Int
  logLevel : Text
deriving DecidableEq, Repr

namespace Config

/-- What holds without a configuration file. -/
def default : Config :=
  ⟨[], [], false, Optimize.Pass.names, true, Associativity.right.name, Settings.defaultMaxCalls,
    LogLevel.warn.text⟩

inductive Issue where
  | associativity (word : Text)
  | emptyPass (index : Nat)
  | unknownPass (index : Nat) (name : Text)
  | negativeDepth (depth : Int)
  | excessiveDepth (depth : Int)
  | logLevel (failure : LogLevel.Failure)
  | entry (entry : Text)
deriving DecidableEq, Repr

namespace Issue

def message : Issue → Text
  | associativity word => utf8 "associativity: " ++ Associativity.unknownMessage word
  | emptyPass i => utf8 "passes[" ++ Text.ofNat i ++ utf8 "] must be a non-empty string"
  | unknownPass i name =>
    utf8 "passes[" ++ Text.ofNat i ++ utf8 "]: " ++ Optimize.Pass.unknownMessage name
  | negativeDepth depth => utf8 "max_call_depth must not be negative, got " ++ Text.ofInt depth
  | excessiveDepth depth =>
    utf8 "max_call_depth must be at most " ++ Text.ofNat Settings.maxCallsLimit ++
      utf8 ", got " ++ Text.ofInt depth
  | logLevel failure => utf8 "log_level: " ++ failure.message
  | entry name => utf8 "entry " ++ name.quoted ++ utf8 " must be a .ds file"

end Issue

/-- What is wrong with a pass at a place of the list. -/
def passIssue? (index : Nat) (name : Text) : Option Issue :=
  if name.isEmpty then some (.emptyPass index)
  else if Optimize.Pass.names.contains name then none
  else some (.unknownPass index name)

def issues (c : Config) : List Issue :=
  (if (Associativity.ofText? c.associativity).isNone then [.associativity c.associativity]
    else []) ++
  (c.passes.zipIdx.filterMap fun (name, i) => passIssue? i name) ++
  (if c.maxCallDepth < 0 then [.negativeDepth c.maxCallDepth] else []) ++
  (if (Settings.maxCallsLimit : Int) < c.maxCallDepth then [.excessiveDepth c.maxCallDepth]
    else []) ++
  (match LogLevel.ofText c.logLevel with
    | .ok _ => []
    | .error failure => [.logLevel failure]) ++
  (if !c.entry.isEmpty && Path.extension c.entry ≠ utf8 ".ds" then [.entry c.entry] else [])

/-- One line for each issue after a heading. -/
def issuesMessage (issues : List Issue) : Text :=
  utf8 "config validation failed:" ++ issues.flatMap fun i => utf8 "\n- " ++ i.message

/-- The script to run, relative to the configuration file. -/
def entryPath (c : Config) : Text :=
  if c.entry.isEmpty || Path.isAbsolute c.entry || c.path.isEmpty then c.entry
  else Path.join [Path.parent c.path, c.entry]

def level (c : Config) : LogLevel :=
  match LogLevel.ofText c.logLevel with
  | .ok l => l
  | .error _ => .warn

/-- The grouping of operators; an unknown word means the usual one. -/
def grouping (c : Config) : Associativity := (Associativity.ofText? c.associativity).getD .right

def settings (c : Config) : Settings := .ofWish c.grouping c.maxCallDepth

/-- What a configuration file says; what it leaves out has no value. -/
structure Draft where
  entry : Text
  optimize : Option Bool
  passes : Option (List Text)
  check : Option Bool
  associativity : Text
  maxCallDepth : Option Int
  logLevel : Text
deriving Repr

namespace Draft

def empty : Draft := ⟨[], none, none, none, [], none, []⟩

/-- How values of a file format are understood. The outer `none` means a value of the wrong kind,
the inner one a value that says nothing. -/
structure Reading (ν : Type) where
  text : ν → Option (Option Text)
  bool : ν → Option (Option Bool)
  int : ν → Option (Option Int)
  texts : ν → Option (Option (List Text))

/-- Takes over one entry of a file; unknown keys are refused. -/
def take {ν : Type} (r : Reading ν) (d : Draft) (key : Text) (v : ν) : Option Draft := do
  if key = utf8 "entry" then return { d with entry := (← r.text v).getD d.entry }
  else if key = utf8 "optimize" then return { d with optimize := ← r.bool v }
  else if key = utf8 "passes" then return { d with passes := ← r.texts v }
  else if key = utf8 "check" then return { d with check := ← r.bool v }
  else if key = utf8 "associativity" then
    return { d with associativity := (← r.text v).getD d.associativity }
  else if key = utf8 "max_call_depth" then return { d with maxCallDepth := ← r.int v }
  else if key = utf8 "log_level" then return { d with logLevel := (← r.text v).getD d.logLevel }
  else none

def distinct {κ : Type} [BEq κ] : List κ → Bool
  | [] => true
  | k :: ks => !ks.contains k && distinct ks

/-- The draft of a file's entries, if every key is known and stands once. -/
def ofEntries {ν : Type} (r : Reading ν) (entries : List (Text × ν)) : Option Draft :=
  if distinct (entries.map (·.1)) then
    entries.foldlM (fun d (key, v) => d.take r key v) empty
  else none

/-- Names in lower case without blanks around them, each once. -/
def tidyNames (names : List Text) : List Text :=
  names.foldl (fun seen name =>
    let name := name.trim.lower
    if seen.contains name then seen else seen ++ [name]) []

/-- A word in lower case, or another one if it is blank. -/
def wordOr (word other : Text) : Text := if word.trim.isEmpty then other else word.trim.lower

/-- The settings of the file at `path`, with defaults for what it leaves out. -/
def toConfig (d : Draft) (path : Text) : Config where
  path := path
  entry := d.entry.trim
  optimize := d.optimize.getD default.optimize
  passes := (d.passes.map tidyNames).getD default.passes
  check := d.check.getD default.check
  associativity := wordOr d.associativity default.associativity
  maxCallDepth := d.maxCallDepth.getD default.maxCallDepth
  logLevel := wordOr d.logLevel default.logLevel

end Draft

end Config

end CellScript
