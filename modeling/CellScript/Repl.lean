import CellScript.Session

/-! The interactive loop: entries of one or more lines, read from a line editor, run in one
session. -/
namespace CellScript

structure Paint where
  on : Bool

namespace Paint

/-- A text between the codes that turn a colour on and off. -/
def wrap (p : Paint) (code : String) (t : Text) : Text :=
  if p.on then utf8 ("\x1b[" ++ code ++ "m") ++ t ++ utf8 "\x1b[0m" else t

def error (p : Paint) (t : Text) : Text := p.wrap "31;1" t

def warning (p : Paint) (t : Text) : Text := p.wrap "33" t

def diagnostic (p : Paint) (d : Diagnostic) : Text :=
  (match d.severity with
    | .error => p.error d.text
    | .warning => p.warning d.text) ++ [10]

def diagnostics (p : Paint) (ds : List Diagnostic) : Text := ds.flatMap p.diagnostic

end Paint

namespace Repl

def mainPrompt : Text := utf8 "dscript> "

def morePrompt : Text := utf8 "     ... "

/-- The name under which entries are reported. -/
def entryPath : Text := utf8 "<repl>"

/-- Whether an entry is a command of the loop itself. -/
def isCommand (entry : Text) : Bool := entry.trim.head? == some (byte ':')

/-- Whether more lines can make an entry a program. -/
def isUnfinished (entry : Text) : Bool :=
  match Parser.parse entry with
  | .error e => e.incomplete
  | .ok _ => false

/-- Reads lines until they make up an entry. No entry means that the loop is over. -/
def readEntry : (steps : Nat) → Editor → (soFar : Text) → Option Text × Editor
  | 0, e, _ => (none, e)
  | steps + 1, e, soFar =>
    match e.prompt (if soFar.isEmpty then mainPrompt else morePrompt) with
    | (none, e) => (if soFar.isEmpty then none else some soFar, e)
    | (some .aborted, e) => (some [], e)
    | (some .failed, e) => (none, e)
    | (some (.text line), e) =>
      let entry := if soFar.isEmpty then line else soFar ++ 10 :: line
      if !isCommand entry && isUnfinished entry then readEntry steps e entry
      else (some entry, e)

structure State where
  session : Session
  editor : Editor
  history : List Text
  stdout : Text
  stderr : Text

namespace State

/-- A session that answers the lines of an editor. -/
def start (config : Config) (lines : List EditorLine) : State :=
  ⟨.start config [], ⟨lines, [], 0⟩, [], [], []⟩

end State

/-- Runs an entry. Output that does not end its line is followed by a line end. -/
def runEntry (paint : Paint) (s : State) (entry : Text) : State :=
  let (report, session) := s.session.run (.fresh (.editor s.editor [])) (.unlimited false)
    entryPath entry
  let editor := match report.ran, session.machine.input.source with
    | true, .editor e _ => e
    | _, _ => s.editor
  let shown := if report.ran then session.output else []
  let newline := if !shown.isEmpty && !session.machine.output.sink.atLineStart then [10] else []
  { s with
    session := session
    editor := editor
    stdout := s.stdout ++ shown ++ newline
    stderr := s.stderr ++ paint.diagnostics report.diagnostics }

/-- What a command shows; nothing if it ends the loop. -/
def command? (s : State) (entry : Text) : Option Text :=
  let word := entry.trim.lower
  if word = utf8 ":quit" || word = utf8 ":q" then none
  else if word = utf8 ":globals" then some (s.session.globals.flatMap fun name => name ++ [10])
  else some (utf8 "unknown command. Commands: :globals, :quit\n")

/-- The loop. Every round takes a line from the editor or is the last. -/
def loop (paint : Paint) : (steps : Nat) → State → State
  | 0, s => s
  | steps + 1, s =>
    match readEntry (s.editor.upcoming.length + 1) s.editor [] with
    | (none, editor) => { s with editor := editor, stdout := s.stdout ++ [10] }
    | (some entry, editor) =>
      let s := { s with editor := editor }
      if entry.trim.isEmpty then loop paint steps s
      else
        let s := { s with history := s.history ++ [Text.replaceByte 10 32 entry] }
        if isCommand entry then
          match command? s entry with
          | some shown => loop paint steps { s with stdout := s.stdout ++ shown }
          | none => s
        else loop paint steps (runEntry paint s entry)

def run (paint : Paint) (config : Config) (lines : List EditorLine) : State :=
  loop paint (lines.length + 1) (.start config lines)

end Repl

end CellScript
