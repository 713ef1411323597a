import CellScript.Proofs.Control

/-! Evaluation with a record of what happened on the way. A traced step runs like a plain one and
tells, for every machine it starts from, the moments it passes: where each evaluation begins and
ends, which frames are closed and where a fault comes up. The traced evaluation below repeats the
plain one, and its run is the plain run. -/
namespace CellScript

/-- What is being evaluated. -/
inductive TreeNode where
  | expr (e : Expr)
  | operand (x : Operand)
  | primary (p : Primary)
  | tail (t : Tail)
  | literal (l : Literal)
  | call (f : Closure) (site : Span)
  | statement (s : Statement)
  | statements (ss : List Statement)
  | block (b : Body)

structure Activation where
  function : Closure
  site : Span

inductive Event where
  | began (node : TreeNode) (m : Machine)
  | ended (node : TreeNode) (before after : Machine)
  /-- A frame of the owner is closed that was opened over the scopes `outside`. -/
  | closing (owner : Owner) (outside inside : Scopes)
  /-- A fault comes up; it did not come from a part of the node. -/
  | raised (node : TreeNode) (e : RuntimeError) (m : Machine)

/-- An event and the calls that are open then, innermost first. -/
structure Moment where
  active : List Activation
  event : Event

/-- The machine in which a step ended. -/
def Run.reached {α : Type} : EStateM.Result Stop Machine α → Machine
  | .ok _ m => m
  | .error _ m => m

/-- An expression that is evaluated on its own leaves the machine that its evaluation reached. -/
theorem Eval.expression_reached (cfg : Settings) (fuel : Nat) (e : Expr) (m : Machine) :
    (Eval.expression cfg fuel e m).2 = Run.reached (Eval.expr cfg fuel e m) := by
  unfold Eval.expression
  cases Eval.expr cfg fuel e m <;> rfl

/-- A step together with the moments it passes. -/
structure Traced (α : Type) where
  run : Run α
  moments : Machine → List Moment

namespace Traced

variable {α β : Type}

/-- The moments after a step that may have stopped. -/
def following (r : EStateM.Result Stop Machine α) (next : α → Machine → List Moment) : List Moment :=
  match r with
  | .ok a m => next a m
  | .error _ _ => []

instance : Monad Traced where
  pure a := ⟨pure a, fun _ => []⟩
  bind x f := ⟨x.run >>= fun a => (f a).run,
    fun m => x.moments m ++ following (x.run m) fun a m => (f a).moments m⟩

/-- A step that passes nothing worth telling. -/
def quiet (x : Run α) : Traced α := ⟨x, fun _ => []⟩

section

variable (active : List Activation) (node : TreeNode)

/-- The fault with which a step of the node ends, if it does. -/
def faults : EStateM.Result Stop Machine α → List Moment
  | .error (.fault e) m => [⟨active, .raised node e m⟩]
  | _ => []

/-- A step of the node itself. -/
def own (x : Run α) : Traced α := ⟨x, fun m => faults active node (x m)⟩

def during (x : Traced α) : Traced α :=
  ⟨x.run, fun m => ⟨active, .began node m⟩ :: x.moments m ++
    [⟨active, .ended node m (Run.reached (x.run m))⟩]⟩

/-- A frame that the node opens and closes. -/
def inFrame (owner : Owner) (bindings : Bindings) (x : Traced α) : Traced α :=
  ⟨Run.inFrame owner bindings x.run, fun m =>
    let opened := { m with scopes := m.scopes.openWith (some owner) bindings }
    x.moments opened ++
      [⟨active, .closing owner m.scopes (Run.reached (x.run opened)).scopes⟩] ++
      following (x.run opened) fun _ m =>
        faults active node (Run.locate owner.span (m.scopes.close (some owner)) m)⟩

/-- A call. Its code may try to leave a loop that is not there. -/
def asCall (site : Span) (x : Traced (Option CellRef)) : Traced CellRef :=
  ⟨Eval.asCall site x.run, fun m =>
    let r := x.run { m with calls := m.calls + 1 }
    x.moments { m with calls := m.calls + 1 } ++
      match r with
      | .error (.brk span) m => faults active node ((Run.fail span .strayBreak : Run CellRef) m)
      | .error (.cont span) m => faults active node ((Run.fail span .strayContinue : Run CellRef) m)
      | _ => []⟩

end

/-- One round of a loop and then the rest of it. -/
def round (body next : Traced Unit) : Traced Unit :=
  ⟨Run.round body.run next.run, fun m => body.moments m ++
    match body.run m with
    | .ok _ m | .error (.cont _) m => next.moments m
    | .error _ _ => []⟩

def forCount (body : Int64 → Traced Unit) : (count : Nat) → (v : Int64) → Traced Unit
  | 0, _ => pure ()
  | count + 1, v => round (body v) (forCount body count (v + 1))

def whileHolds (condition : Traced Bool) (body : Traced Unit) : (rounds : Nat) → Traced Unit
  | 0 => quiet (throw .exhausted)
  | rounds + 1 => do
    if ← condition then round body (whileHolds condition body rounds) else return ()

end Traced

namespace Trace

open Run Traced

/-- Statements in the open frame. -/
def sequence (active : List Activation) (step : Statement → Traced Unit) (ss : List Statement) :
    Traced Unit :=
  during active (.statements ss) (ss.forM step)

mutual

def expr (cfg : Settings) : (fuel : Nat) → List Activation → Expr → Traced CellRef
  | 0, _, _ => quiet (throw .exhausted)
  | _ + 1, active, .missing =>
    during active (.expr .missing) (own active (.expr .missing) (fail .zero .missingExpression))
  | _ + 1, active, .mk span [] ops =>
    during active (.expr (.mk span [] ops)) (own active (.expr (.mk span [] ops))
      (fail span .emptyExpression))
  | n + 1, active, .mk span (x :: xs) ops =>
    let node := TreeNode.expr (.mk span (x :: xs) ops)
    during active node do
      if xs.length ≠ ops.length then
        own active node (fail span (.operandCount (xs.length + 1) ops.length))
      else if xs.isEmpty then operand cfg n active x
      else
        let first ← quiet (contents (← operand cfg n active x))
        let rest ← xs.mapM' fun x => do quiet (contents (← operand cfg n active x))
        let v ← own active node
          (onHeap span (Operators.reduce cfg.associativity first (ops.zip rest)))
        quiet (newCell v)

def operand (cfg : Settings) : (fuel : Nat) → List Activation → Operand → Traced CellRef
  | 0, _, _ => quiet (throw .exhausted)
  | n + 1, active, .mk span op p test =>
    let node := TreeNode.operand (.mk span op p test)
    during active node do
      let c ← primary cfg n active p
      if op.isNone && test.isNone then return c
      else
        let v ← quiet (contents c)
        quiet (newCell (← own active node (locate span (Operators.operand op test v))))

def primary (cfg : Settings) : (fuel : Nat) → List Activation → Primary → Traced CellRef
  | 0, _, _ => quiet (throw .exhausted)
  | _ + 1, active, .read span kind =>
    let node := TreeNode.primary (.read span kind)
    during active node do quiet (newCell (← own active node (readValue span kind)))
  | n + 1, active, .literal span l => during active (.primary (.literal span l)) (literal cfg n active l)
  | n + 1, active, .paren span inner =>
    during active (.primary (.paren span inner)) (expr cfg n active inner)
  | n + 1, active, .ref span name tails =>
    let node := TreeNode.primary (.ref span name tails)
    during active node do tails.foldlM (tail cfg n active) (← own active node (lookup span name))

def tail (cfg : Settings) : (fuel : Nat) → List Activation → CellRef → Tail → Traced CellRef
  | 0, _, _, _ => quiet (throw .exhausted)
  | n + 1, active, c, t =>
    during active (.tail t) do
      let v ← quiet (contents c)
      match t with
      | .index span position => own active (.tail t) (Eval.itemAt span position v)
      | .field span name => own active (.tail t) (Eval.itemNamed span name v)
      | .subscript span key =>
        let k ← expr cfg n active key
        own active (.tail t) (Eval.itemUnder span key.span k v)
      | .call span arguments =>
        match v with
        | .func f => call cfg n active f (← arguments.mapM' (expr cfg n active)) span
        | v => own active (.tail t) (fail span (.callOf v.type))

def call (cfg : Settings) :
    (fuel : Nat) → List Activation → Closure → List CellRef → Span → Traced CellRef
  | 0, _, _, _, _ => quiet (throw .exhausted)
  | n + 1, active, f, arguments, site =>
    let node := TreeNode.call f site
    during active node do
      if arguments.length ≠ f.arity then
        own active node (fail site (.arity f.arity arguments.length))
      else
        if cfg.maxCalls ≤ (← quiet get).calls then
          own active node (fail site (.tooManyCalls cfg.maxCalls))
        else
          let bindings := f.captured.override (f.params.zip arguments)
          let inside := ⟨f, site⟩ :: active
          asCall active node site (inFrame active node ⟨.function, f.span, []⟩ bindings (do
            match f.code with
            | .expression e => return some (← expr cfg n inside e)
            | .statements b =>
              sequence inside (statement cfg n inside) b.statements
              return none))

def literal (cfg : Settings) : (fuel : Nat) → List Activation → Literal → Traced CellRef
  | 0, _, _ => quiet (throw .exhausted)
  | n + 1, active, l =>
    during active (.literal l)
      (match l with
      | .missing => own active (.literal l) (fail .zero .missingLiteral)
      | .integer _ k => quiet (newCell (.int k))
      | .real _ x => quiet (newCell (.real x))
      | .boolean _ b => quiet (newCell (.bool b))
      | .string _ t => quiet (newCell (.string t))
      | .empty _ => quiet (newCell .empty)
      | .array _ es => do
        let cells ← es.mapM' (expr cfg n active)
        let v ← quiet (newArray cells)
        quiet (newCell v)
      | .tuple span es => do
        let fields ← es.mapM' fun | .mk _ name value => do return (name, ← expr cfg n active value)
        let v ← own active (.literal l) (newTuple span fields)
        quiet (newCell v)
      | .function span params b => quiet (Eval.closure span params (.statements b))
      | .lambda span params result => quiet (Eval.closure span params (.expression result)))

def statement (cfg : Settings) : (fuel : Nat) → List Activation → Statement → Traced Unit
  | 0, _, _ => quiet (throw .exhausted)
  | n + 1, active, s =>
    let node := TreeNode.statement s
    during active node
      (match s with
      | .declare _ name initial => do
        if initial.isMissing then
          let c ← quiet (newCell .empty)
          quiet (bindName name c)
        else
          let c ← expr cfg n active initial
          quiet (bindName name c)
          if Eval.isFunctionLiteral initial then quiet (Eval.knowItself name c)
      | .assign span target op value => do
        let c ← primary cfg n active target
        match op with
        | none => return ()
        | some op =>
          if value.isMissing then return ()
          else
            let v ← quiet (contents (← expr cfg n active value))
            own active node (Eval.assignTo span c op v)
      | .branch _ e yes no => do
        if ← condition cfg n active node "if" e then block cfg n active yes else block cfg n active no
      | .forLoop span counter low high b => do
        let low ← bound cfg n active node "lower" low
        let high ← bound cfg n active node "upper" high
        inFrame active node ⟨.forLoop, span, []⟩ []
          (forCount (fun v => do
            let c ← quiet (newCell (.int v))
            quiet (bindName counter c)
            block cfg n active b) (high.toInt - low.toInt + 1).toNat low)
      | .whileLoop _ e b => whileHolds (condition cfg n active node "while" e) (block cfg n active b) n
      | .print span arguments =>
        arguments.forM fun e => do
          let v ← quiet (contents (← expr cfg n active e))
          own active node (print span v)
      | .ret _ value => do
        let c ← if value.isMissing then quiet (newCell .empty) else expr cfg n active value
        quiet (throw (.ret c))
      | .brk span => quiet (throw (.brk span))
      | .cont span => quiet (throw (.cont span))
      | .block b => block cfg n active b)

def condition (cfg : Settings) :
    (fuel : Nat) → List Activation → TreeNode → (construct : String) → Expr → Traced Bool
  | 0, _, _, _, _ => quiet (throw .exhausted)
  | n + 1, active, node, construct, e => do
    let v ← quiet (contents (← expr cfg n active e))
    own active node (match v with
      | .bool b => return b
      | v => fail e.span (.conditionNotBoolean construct v.type))

def bound (cfg : Settings) :
    (fuel : Nat) → List Activation → TreeNode → (which : String) → Expr → Traced Int64
  | 0, _, _, _, _ => quiet (throw .exhausted)
  | n + 1, active, node, which, e => do
    let v ← quiet (contents (← expr cfg n active e))
    own active node (match v with
      | .int k => return k
      | v => fail e.span (.boundNotInteger which v.type))

def block (cfg : Settings) : (fuel : Nat) → List Activation → Body → Traced Unit
  | 0, _, _ => quiet (throw .exhausted)
  | _ + 1, active, .missing => during active (.block .missing) (return ())
  | n + 1, active, .mk span ss cleared =>
    let node := TreeNode.block (.mk span ss cleared)
    during active node (inFrame active node ⟨.body, span, []⟩ []
      (sequence active (statement cfg n active) ss))

end

def program (cfg : Settings) (fuel : Nat) (p : Program) : Traced Unit :=
  sequence [] (statement cfg fuel []) p.body.statements

end Trace

end CellScript
