import CellScript.Config.Toml
import CellScript.Config.Yaml
import CellScript.Files

/-! Finding and reading configuration files. -/
namespace CellScript.Config

inductive LoadError where
  | emptyPath
  | cannotOpen (path : Text) (cause : String)
  | malformed (path : Text)
  | unsupported (path : Text)
  | invalid (issues : List Issue)
  | cannotInspect (path : Text) (cause : String)

namespace LoadError

def message : LoadError → Text
  | emptyPath => utf8 "config: empty path"
  | cannotOpen path cause =>
    utf8 "config: open " ++ path ++ utf8 ": open " ++ path ++ utf8 (": " ++ cause)
  | malformed path => utf8 "config: parse " ++ path ++ utf8 ": malformed configuration"
  | unsupported path =>
    utf8 "config: " ++ path ++ utf8 ": unsupported extension (want .yml, .yaml or .toml)"
  | invalid issues => issuesMessage issues
  | cannotInspect path cause =>
    utf8 "config: stat " ++ path ++ utf8 ": stat " ++ path ++ utf8 (": " ++ cause)

end LoadError

/-- The draft in a file, by its extension. -/
def readDraft (path : Text) (e : FileEntry) : Except LoadError Draft :=
  let read (draft? : Text → Option Draft) : Except LoadError Draft :=
    match e with
    | .file content =>
      match draft? content with
      | some d => .ok d
      | none => .error (.malformed path)
    | _ => .error (.malformed path)
  let ext := (Path.extension path).lower
  if ext = utf8 ".yml" || ext = utf8 ".yaml" then read Yaml.draft?
  else if ext = utf8 ".toml" then read Toml.draft?
  else .error (.unsupported path)

def load {m : Type → Type} [Monad m] (fs : FileAccess m) (path : Text) :
    m (Except LoadError Config) := do
  if path.isEmpty then return .error .emptyPath
  let path := Path.absolute fs.cwd path
  let e ← fs.entry path
  match e.openCause? with
  | some cause => return .error (.cannotOpen path cause)
  | none =>
    match readDraft path e with
    | .error e => return .error e
    | .ok d =>
      let c := d.toConfig path
      match c.issues with
      | [] => return .ok c
      | issues => return .error (.invalid issues)

/-- The names of configuration files; earlier ones win. -/
def fileNames : List Text := [utf8 "dscript.yml", utf8 "dscript.yaml", utf8 "dscript.toml"]

/-- The first of the candidates that is a file. -/
def firstFile {m : Type → Type} [Monad m] (fs : FileAccess m) :
    List Text → m (Except LoadError (Option Text))
  | [] => return .ok none
  | path :: rest => do
    let e ← fs.entry path
    match e, e.openCause? with
    | .file _, _ | .denied, _ => return .ok (some path)
    | .absent, _ | _, none => firstFile fs rest
    | _, some cause => return .error (.cannotInspect path cause)

/-- Looks in a directory and then in those above it. Each step takes a name away, so the number of
bytes bounds the steps. -/
def findFrom {m : Type → Type} [Monad m] (fs : FileAccess m) :
    (steps : Nat) → Text → m (Except LoadError (Option Text))
  | 0, _ => return .ok none
  | steps + 1, dir => do
    match ← firstFile fs (fileNames.map fun name => Path.join [dir, name]) with
    | .ok none =>
      let parent := Path.parent dir
      if parent = dir then return .ok none else findFrom fs steps parent
    | found => return found

/-- The nearest configuration file, if there is one. -/
def find {m : Type → Type} [Monad m] (fs : FileAccess m) (dir : Text) :
    m (Except LoadError (Option Text)) :=
  let start := Path.absolute fs.cwd dir
  findFrom fs (start.length + 1) start

end CellScript.Config
