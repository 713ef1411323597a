import CellScript.Input
import CellScript.Operators
import CellScript.Output
import CellScript.Real.Reading
import CellScript.Render
import CellScript.Scope

/-! The state of a running program and the steps that change it. A step ends with a value, or it
stops: control leaves the construct, or the run fails. Either way the state it reached remains. -/
namespace CellScript

/-- What a run can be told beforehand. -/
structure Settings where
  associativity : Associativity
  /-- The most calls that can be open at once. -/
  maxCalls : Nat
deriving DecidableEq, Repr

namespace Settings

def defaultMaxCalls : Nat := 4096

def maxCallsLimit : Nat := 32768

/-- Settings with a wished number of open calls: without a wish for at least one the default
applies, and nothing goes beyond the limit. -/
def ofWish (associativity : Associativity) (maxCalls : Int) : Settings :=
  ⟨associativity, if 0 < maxCalls then min maxCalls.toNat maxCallsLimit else defaultMaxCalls⟩

end Settings

structure Machine where
  heap : Heap
  scopes : Scopes
  /-- The number of calls that are open. -/
  calls : Nat
  output : Output
  input : WordReader

namespace Machine

/-- Nothing is bound, there is no input, and output goes nowhere. -/
def initial : Machine :=
  ⟨.empty, .empty, 0, .nowhere, .ofSource (.bytes [])⟩

end Machine

inductive Stop where
  | brk (span : Span)
  | cont (span : Span)
  | ret (cell : CellRef)
  | fault (e : RuntimeError)
  /-- The bound on the steps was reached. -/
  | exhausted

/-- A step of a run. -/
abbrev Run (α : Type) := EStateM Stop Machine α

namespace Run

variable {α : Type}

def fail (span : Span) (fault : Fault) : Run α := throw (.fault ⟨fault, span, []⟩)

/-- The value of a computation that may fail, at a place. -/
def locate (span : Span) : Except Fault α → Run α
  | .ok a => pure a
  | .error fault => fail span fault

/-- The step, with a stop as a value. -/
def attempt (x : Run α) : Run (Except Stop α) := fun m =>
  match x m with
  | .ok a m => .ok (.ok a) m
  | .error stop m => .ok (.error stop) m

/-- The step inside a new frame, which is closed however the step ends. -/
def inFrame (owner : Owner) (bindings : Bindings) (x : Run α) : Run α := fun m =>
  match x { m with scopes := m.scopes.openWith (some owner) bindings } with
  | .ok a m =>
    match m.scopes.close (some owner) with
    | .ok scopes => .ok a { m with scopes := scopes }
    | .error fault => .error (.fault ⟨fault, owner.span, []⟩) m
  | .error stop m =>
    match m.scopes.close (some owner) with
    | .ok scopes => .error stop { m with scopes := scopes }
    | .error _ => .error stop m

def contents (c : CellRef) : Run Value := fun m => .ok (m.heap.get c) m

def newCell (v : Value) : Run CellRef := fun m =>
  let (c, heap) := m.heap.newCell v
  .ok c { m with heap := heap }

def setCell (c : CellRef) (v : Value) : Run Unit :=
  modify fun m => { m with heap := m.heap.set c v }

def newArray (cells : List CellRef) : Run Value := fun m =>
  let (v, heap) := m.heap.newArray (.ofList cells)
  .ok v { m with heap := heap }

def newTuple (span : Span) (fields : List (Text × CellRef)) : Run Value :=
  match Tuple.ofFields fields with
  | .ok t => fun m =>
    let (v, heap) := m.heap.newTuple t
    .ok v { m with heap := heap }
  | .error name => fail span (.duplicateKey name)

def slot (a : ArrayRef) (key : Int64) : Run CellRef := fun m =>
  let (c, heap) := m.heap.slot a key
  .ok c { m with heap := heap }

/-- A computation on the heap that may fail. -/
def onHeap (span : Span) (f : Heap → Except Fault (Value × Heap)) : Run Value := fun m =>
  match f m.heap with
  | .ok (v, heap) => .ok v { m with heap := heap }
  | .error fault => .error (.fault ⟨fault, span, []⟩) m

def bindName (name : Text) (c : CellRef) : Run Unit :=
  modify fun m => { m with scopes := m.scopes.bind name c }

def lookup (span : Span) (name : Text) : Run CellRef := do
  locate span ((← get).scopes.lookup name)

def print (span : Span) (v : Value) : Run Unit := fun m =>
  let output := m.output.write (m.heap.render v)
  let m := { m with output := output }
  if output.failed then .error (.fault ⟨.writeFailed, span, []⟩) m else .ok () m

/-- The next word of the input. While a program runs, what it printed is shown first. A line entered
by a user ends the line on the screen. -/
def readWord (span : Span) (what : Text) : Run Text := fun m =>
  let output := m.output.beforeRead
  if output.linked && output.failed then .error (.fault ⟨.flushFailed, span, []⟩) { m with output := output }
  else
    let entered := m.input.source.entered
    match m.input.read with
    | (result, input) =>
      let sink := { output.sink with
        atLineStart := output.sink.atLineStart || entered < input.source.entered }
      let m := { m with input := input, output := { output with sink := sink } }
      match result with
      | .ok w => .ok w m
      | .error stop =>
        match stop.cause? with
        | some cause => .error (.fault ⟨.inputFailed what cause, span, []⟩) m
        | none => .error (.fault ⟨.inputEnded what, span, []⟩) m

def readValue (span : Span) (kind : Word ReadKind) : Run Value :=
  match kind with
  | .other w _ => fail span (.unknownPrimary w)
  | .known k => do
    let w ← readWord span (Vocabulary.spelling k)
    match k with
    | .int =>
      match Integer.read w with
      | .ok n => return .int n
      | .error _ => fail span (.badInteger w)
    | .real =>
      match Real.read? w with
      | some x => return .real x
      | none => fail span (.badReal w)
    | .string => return .string w

/-- Runs the body once for each of `count` integers from `v` on. A break ends the loop, a continue
goes on with the next integer. -/
def forCount (body : Int64 → Run Unit) : (count : Nat) → (v : Int64) → Run Unit
  | 0, _ => fun m => .ok () m
  | count + 1, v => fun m =>
    match body v m with
    | .ok _ m | .error (.cont _) m => forCount body count (v + 1) m
    | .error (.brk _) m => .ok () m
    | .error stop m => .error stop m

/-- Runs the body as long as the condition holds, for a bounded number of rounds. -/
def whileHolds (condition : Run Bool) (body : Run Unit) : (rounds : Nat) → Run Unit
  | 0 => fun m => .error .exhausted m
  | rounds + 1 => fun m =>
    match condition m with
    | .error stop m => .error stop m
    | .ok false m => .ok () m
    | .ok true m =>
      match body m with
      | .ok _ m | .error (.cont _) m => whileHolds condition body rounds m
      | .error (.brk _) m => .ok () m
      | .error stop m => .error stop m

end Run

end CellScript
