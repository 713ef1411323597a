import CellScript.Machine

/-! Evaluation. An expression denotes a cell: a lone operand without operators gives its own cell,
so that declarations and arguments share it, while anything computed gets a fresh one. All
functions take a bound on their nesting, which also bounds the rounds of a `while`. -/
namespace CellScript.Eval

open Run

def isFunctionLiteral : Expr → Bool
  | .mk _ [.mk _ none (.literal _ (.function ..)) none] _
  | .mk _ [.mk _ none (.literal _ (.lambda ..)) none] _ => true
  | _ => false

/-- A function that is being declared knows the name of its own cell. -/
def knowItself (name : Text) (c : CellRef) : Run Unit := do
  match ← contents c with
  | .func f =>
    modify fun m => { m with
      heap := m.heap.put c (.func { f with captured := f.captured.set name c }) }
  | _ => return ()

def itemAt (span : Span) (position : Int64) (v : Value) : Run CellRef := do
  match v with
  | .tuple t =>
    let t := (← get).heap.tuple t
    match t.get? position with
    | some c => return c
    | none => fail span (.noPosition position t.size)
  | v => fail span (.positionOf position v.type)

def itemNamed (span : Span) (name : Text) (v : Value) : Run CellRef := do
  match v with
  | .tuple t =>
    match ((← get).heap.tuple t).field? name with
    | some c => return c
    | none => fail span (.noField name)
  | v => fail span (.fieldOf name v.type)

/-- The item of an array under the key that a cell holds. -/
def itemUnder (span keySpan : Span) (key : CellRef) (v : Value) : Run CellRef := do
  match v with
  | .array a =>
    match ← contents key with
    | .int k => slot a k
    | w => fail keySpan (.subscriptNotInteger w.type)
  | v => fail span (.subscriptOf v.type)

def assignTo (span : Span) (target : CellRef) (op : Word AssignOp) (v : Value) : Run Unit := do
  match op with
  | .known .set => setCell target v
  | .known .add =>
    let old ← contents target
    setCell target (← onHeap span (Operators.binary .add old v))
  | .known .subtract =>
    let old ← contents target
    setCell target (← onHeap span (Operators.binary .subtract old v))
  | .other w _ => fail span (.unknownAssignment w)

/-- The function that a literal denotes here. -/
def closure (span : Span) (params : List Text) (code : Code) : Run CellRef := do
  newCell (.func ⟨span, params, code, (← get).scopes.snapshot⟩)

/-- Counts a call while a step runs, and turns the ways in which its code can end into the result
of the call: a return gives its cell, a loop cannot be left from inside the call, and an error
remembers the call site. -/
def asCall (site : Span) (x : Run (Option CellRef)) : Run CellRef := do
  modify fun m => { m with calls := m.calls + 1 }
  let result ← attempt x
  modify fun m => { m with calls := m.calls - 1 }
  match result with
  | .ok (some c) => return c
  | .ok none => newCell .empty
  | .error (.ret c) => return c
  | .error (.fault e) => throw (.fault (e.leaveCall site))
  | .error (.brk span) => fail span .strayBreak
  | .error (.cont span) => fail span .strayContinue
  | .error .exhausted => throw .exhausted

mutual

def expr (cfg : Settings) : (fuel : Nat) → Expr → Run CellRef
  | 0, _ => throw .exhausted
  | _ + 1, .missing => fail .zero .missingExpression
  | _ + 1, .mk span [] _ => fail span .emptyExpression
  | n + 1, .mk span (x :: xs) ops => do
    if xs.length ≠ ops.length then fail span (.operandCount (xs.length + 1) ops.length)
    else if xs.isEmpty then operand cfg n x
    else
      let first ← contents (← operand cfg n x)
      let rest ← xs.mapM fun x => do contents (← operand cfg n x)
      newCell (← onHeap span (Operators.reduce cfg.associativity first (ops.zip rest)))

def operand (cfg : Settings) : (fuel : Nat) → Operand → Run CellRef
  | 0, _ => throw .exhausted
  | n + 1, .mk span op p test => do
    let c ← primary cfg n p
    if op.isNone && test.isNone then return c
    else newCell (← locate span (Operators.operand op test (← contents c)))

def primary (cfg : Settings) : (fuel : Nat) → Primary → Run CellRef
  | 0, _ => throw .exhausted
  | _ + 1, .read span kind => do newCell (← readValue span kind)
  | n + 1, .literal _ l => literal cfg n l
  | n + 1, .paren _ inner => expr cfg n inner
  | n + 1, .ref span name tails => do tails.foldlM (tail cfg n) (← lookup span name)

/-- One step from a cell. The value is taken before a subscript or arguments are evaluated. -/
def tail (cfg : Settings) : (fuel : Nat) → CellRef → Tail → Run CellRef
  | 0, _, _ => throw .exhausted
  | n + 1, c, t => do
    let v ← contents c
    match t with
    | .index span position => itemAt span position v
    | .field span name => itemNamed span name v
    | .subscript span key => itemUnder span key.span (← expr cfg n key) v
    | .call span arguments =>
      match v with
      | .func f => call cfg n f (← arguments.mapM (expr cfg n)) span
      | v => fail span (.callOf v.type)

/-- Calls a function. Its frame holds what it captured and, over that, the cells of the
arguments under the names of the parameters. -/
def call (cfg : Settings) : (fuel : Nat) → Closure → List CellRef → Span → Run CellRef
  | 0, _, _, _ => throw .exhausted
  | n + 1, f, arguments, site => do
    if arguments.length ≠ f.arity then fail site (.arity f.arity arguments.length)
    else
      if cfg.maxCalls ≤ (← get).calls then fail site (.tooManyCalls cfg.maxCalls)
      else
        let bindings := f.captured.override (f.params.zip arguments)
        asCall site (inFrame ⟨.function, f.span, []⟩ bindings (do
          match f.code with
          | .expression e => return some (← expr cfg n e)
          | .statements b =>
            b.statements.forM (statement cfg n)
            return none))

def literal (cfg : Settings) : (fuel : Nat) → Literal → Run CellRef
  | 0, _ => throw .exhausted
  | _ + 1, .missing => fail .zero .missingLiteral
  | _ + 1, .integer _ k => newCell (.int k)
  | _ + 1, .real _ x => newCell (.real x)
  | _ + 1, .boolean _ b => newCell (.bool b)
  | _ + 1, .string _ t => newCell (.string t)
  | _ + 1, .empty _ => newCell .empty
  | n + 1, .array _ es => do newCell (← newArray (← es.mapM (expr cfg n)))
  | n + 1, .tuple span es => do
    let fields ← es.mapM fun | .mk _ name value => do return (name, ← expr cfg n value)
    newCell (← newTuple span fields)
  | _ + 1, .function span params b => closure span params (.statements b)
  | _ + 1, .lambda span params result => closure span params (.expression result)

/-- A condition, which has to be a boolean. -/
def condition (cfg : Settings) : (fuel : Nat) → (construct : String) → Expr → Run Bool
  | 0, _, _ => throw .exhausted
  | n + 1, construct, e => do
    match ← contents (← expr cfg n e) with
    | .bool b => return b
    | v => fail e.span (.conditionNotBoolean construct v.type)

/-- A bound of a range, which has to be an integer. -/
def bound (cfg : Settings) : (fuel : Nat) → (which : String) → Expr → Run Int64
  | 0, _, _ => throw .exhausted
  | n + 1, which, e => do
    match ← contents (← expr cfg n e) with
    | .int k => return k
    | v => fail e.span (.boundNotInteger which v.type)

def statement (cfg : Settings) : (fuel : Nat) → Statement → Run Unit
  | 0, _ => throw .exhausted
  | n + 1, .declare _ name initial => do
    if initial.isMissing then bindName name (← newCell .empty)
    else
      let c ← expr cfg n initial
      bindName name c
      if isFunctionLiteral initial then knowItself name c
  | n + 1, .assign span target op value => do
    let c ← primary cfg n target
    match op with
    | none => return ()
    | some op =>
      if value.isMissing then return ()
      else assignTo span c op (← contents (← expr cfg n value))
  | n + 1, .branch _ e yes no => do
    if ← condition cfg n "if" e then block cfg n yes else block cfg n no
  | n + 1, .forLoop span counter low high b => do
    let low ← bound cfg n "lower" low
    let high ← bound cfg n "upper" high
    inFrame ⟨.forLoop, span, []⟩ []
      (forCount (fun v => do
        bindName counter (← newCell (.int v))
        block cfg n b) (high.toInt - low.toInt + 1).toNat low)
  | n + 1, .whileLoop _ e b => whileHolds (condition cfg n "while" e) (block cfg n b) n
  | n + 1, .print span arguments =>
    arguments.forM fun e => do print span (← contents (← expr cfg n e))
  | n + 1, .ret _ value => do
    let c ← if value.isMissing then newCell .empty else expr cfg n value
    throw (.ret c)
  | _ + 1, .brk span => throw (.brk span)
  | _ + 1, .cont span => throw (.cont span)
  | n + 1, .block b => block cfg n b

def block (cfg : Settings) : (fuel : Nat) → Body → Run Unit
  | 0, _ => throw .exhausted
  | _ + 1, .missing => return ()
  | n + 1, .mk span ss _ => inFrame ⟨.body, span, []⟩ [] (ss.forM (statement cfg n))

end

inductive Outcome where
  | done
  | failed (e : RuntimeError)
  /-- The program came to its end, but its output did not reach the destination. -/
  | outputRefused
  | exhausted

/-- How a stop that reached the top level ends the run. A return is a normal end. -/
def outcome : Stop → Outcome
  | .ret _ => .done
  | .fault e => .failed e
  | .brk span => .failed ⟨.strayBreak, span, []⟩
  | .cont span => .failed ⟨.strayContinue, span, []⟩
  | .exhausted => .exhausted

/-- Shows all output at the end of a run and parts it from the input. -/
def finish (o : Outcome) (m : Machine) : Outcome × Machine :=
  let output := m.output.close
  match o with
  | .done => (if output.failed then .outputRefused else .done, { m with output := output })
  | o => (o, { m with output := output })

/-- Runs a program. Global bindings remain; after a failure all other frames are discarded. -/
def program (cfg : Settings) (fuel : Nat) (p : Program) (m : Machine) : Outcome × Machine :=
  match p.body.statements.forM (statement cfg fuel) m with
  | .ok _ m => finish .done m
  | .error (.ret _) m => finish .done m
  | .error stop m => finish (outcome stop) { m with scopes := m.scopes.reset, calls := 0 }

def expression (cfg : Settings) (fuel : Nat) (e : Expr) (m : Machine) :
    Except Stop Value × Machine :=
  match expr cfg fuel e m with
  | .ok c m => (.ok (m.heap.get c), m)
  | .error stop m => (.error stop, m)

/-- A bound on nesting that no run reaches. -/
def ample : Nat := Nat.pow 2 60

end CellScript.Eval
