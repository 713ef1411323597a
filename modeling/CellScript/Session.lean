import CellScript.Check
import CellScript.Config
import CellScript.Eval
import CellScript.Parser

/-! Sessions: sources go through parsing, checks and optimisation into one machine, whose global
bindings last from one program to the next. -/
namespace CellScript

inductive Feed where
  /-- The input that all programs of the session share. -/
  | shared
  | fresh (source : Source)

structure Session where
  config : Config
  machine : Machine
  /-- What is left of the shared input while the machine reads from elsewhere. -/
  shared : Source
  /-- Whether the machine reads from the shared input. -/
  readsShared : Bool

namespace Session

/-- A session in which nothing has run yet. -/
def start (config : Config) (shared : Text) : Session := ⟨config, .initial, .bytes shared, false⟩

/-- Why a program did not run, or how its run failed. -/
inductive Failure where
  | syntaxError (e : Parser.Error)
  | checkFailed
  | run (outcome : Eval.Outcome)

/-- What is said when output could not be written. -/
def outputRefusedMessage : Text := utf8 ("interpreter: write output: " ++ Fault.sinkFull)

/-- What is said when the bound on nesting was reached. -/
def exhaustedMessage : Text := utf8 "interpreter: program too deep"

def outcomeDiagnostics (path : Text) : Eval.Outcome → List Diagnostic
  | .done => []
  | .failed e => [.runtimeError path e.fault.kind.name e.fault.message e.span e.calls]
  | .outputRefused => [.plain path outputRefusedMessage]
  | .exhausted => [.plain path exhaustedMessage]

/-- The names bound globally, in byte order. -/
def globals (s : Session) : List Text := s.machine.scopes.globals.sortedNames

/-- What the static checks say about a program at this point of the session. -/
def check (s : Session) (path : Text) (p : Program) : List Diagnostic :=
  (Check.program s.globals p).map (·.diagnostic path)

def optimize (s : Session) (p : Program) : Program :=
  (Optimize.rounds s.config.grouping (Optimize.Pass.ofNames s.config.passes)
    Optimize.defaultRounds p).2

structure Compiled where
  program : Option Program
  diagnostics : List Diagnostic
  failure : Option Failure

/-- Prepares a source as the settings say. -/
def compile (s : Session) (path source : Text) : Compiled :=
  match Parser.parse source with
  | .error e => ⟨none, [.syntaxError path e.message e.span], some (.syntaxError e)⟩
  | .ok p =>
    let diagnostics := if s.config.check then s.check path p else []
    if Diagnostic.anyError diagnostics then ⟨some p, diagnostics, some .checkFailed⟩
    else ⟨some (if s.config.optimize then s.optimize p else p), diagnostics, none⟩

/-- Connects the machine to an input. An input that it reads already stays as it is, with the
bytes that were taken from it. -/
def connect (s : Session) (feed : Feed) : Session :=
  match feed with
  | .shared =>
    if s.readsShared then s
    else { s with
      machine := { s.machine with input := .ofSource s.shared }
      readsShared := true }
  | .fresh source => { s with
      shared := if s.readsShared then s.machine.input.source else s.shared
      machine := { s.machine with input := .ofSource source }
      readsShared := false }

def execute (s : Session) (feed : Feed) (sink : Sink) (p : Program) : Eval.Outcome × Session :=
  let s := s.connect feed
  let (outcome, machine) := Eval.program s.config.settings Eval.ample p
    { s.machine with output := .toSink sink }
  (outcome, { s with machine := machine })

/-- The text that the last program printed. -/
def output (s : Session) : Text := s.machine.output.sink.text

/-- The result of a source that was prepared and, if nothing was wrong, run. -/
structure Report where
  diagnostics : List Diagnostic
  failure : Option Failure
  /-- Whether the program ran at all. -/
  ran : Bool

def run (s : Session) (feed : Feed) (sink : Sink) (path source : Text) : Report × Session :=
  let c := s.compile path source
  match c.failure, c.program with
  | none, some p =>
    let (outcome, s) := s.execute feed sink p
    let failure := match outcome with
      | .done => none
      | o => some (Failure.run o)
    (⟨c.diagnostics ++ outcomeDiagnostics path outcome, failure, true⟩, s)
  | failure, _ => (⟨c.diagnostics, failure, false⟩, s)

/-- Evaluates an expression where the last program left off. -/
def evaluate (s : Session) (e : Expr) : Except Eval.Outcome Value × Session :=
  let (result, machine) := Eval.expression s.config.settings Eval.ample e s.machine
  let s := { s with machine := machine }
  match result with
  | .ok v => (.ok v, s)
  | .error stop => (.error (Eval.outcome stop), s)

end Session

end CellScript
