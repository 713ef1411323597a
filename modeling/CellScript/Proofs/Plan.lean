import CellScript.Proofs.Control

/-! Evaluation as a tree of acts. An act is a step that nothing comes between; a plan says which acts
follow each other, where frames are opened and where functions are called. A plan can be run on a
machine, and it tells what was done on the way. What every act keeps, every evaluation keeps. -/
namespace CellScript

open Run

/-- Whether a value has no parts and no code. -/
def Value.isScalar : Value → Bool
  | .array _ | .tuple _ | .func _ => false
  | .empty | .int _ | .real _ | .bool _ | .string _ => true

/-- A step that nothing comes between. Values that acts make are held by fresh cells. -/
inductive Act : Type → Type where
  | contents (c : CellRef) : Act Value
  | lookup (span : Span) (name : Text) : Act CellRef
  | bind (name : Text) (c : CellRef) : Act Unit
  | scalar (v : Value) (plain : v.isScalar = true) : Act CellRef
  | array (cells : List CellRef) : Act CellRef
  | tuple (span : Span) (fields : List (Text × CellRef)) : Act CellRef
  /-- Makes the function that a literal denotes. -/
  | function (span : Span) (params : List Text) (code : Code) : Act CellRef
  /-- Makes the function that a literal denotes and declares a name for it, which it knows. -/
  | declareFunction (name : Text) (span : Span) (params : List Text) (code : Code) : Act Unit
  | operand (span : Span) (op : Option (Word UnaryOp)) (test : Option (Word TypeName))
      (given : (op.isNone && test.isNone) = false) (v : Value) : Act CellRef
  | reduce (assoc : Associativity) (span : Span) (first : Value) (op : Word BinaryOp)
      (second : Value) (rest : List (Word BinaryOp × Value)) : Act CellRef
  | itemAt (span : Span) (position : Int64) (v : Value) : Act CellRef
  | itemNamed (span : Span) (name : Text) (v : Value) : Act CellRef
  | itemUnder (span keySpan : Span) (key : CellRef) (v : Value) : Act CellRef
  /-- Assigns the value of one cell to another one. -/
  | assign (span : Span) (target : CellRef) (op : Word AssignOp) (source : CellRef) : Act Unit
  | print (span : Span) (v : Value) : Act Unit

namespace Act

def run : {α : Type} → Act α → Run α
  | _, .contents c => Run.contents c
  | _, .lookup span name => Run.lookup span name
  | _, .bind name c => bindName name c
  | _, .scalar v _ => newCell v
  | _, .array cells => do newCell (← newArray cells)
  | _, .tuple span fields => do newCell (← newTuple span fields)
  | _, .function span params code => Eval.closure span params code
  | _, .declareFunction name span params code => do
    let c ← Eval.closure span params code
    bindName name c
    Eval.knowItself name c
  | _, .operand span op test _ v => do newCell (← locate span (Operators.operand op test v))
  | _, .reduce assoc span first op second rest => do
    newCell (← onHeap span (Operators.reduce assoc first ((op, second) :: rest)))
  | _, .itemAt span position v => Eval.itemAt span position v
  | _, .itemNamed span name v => Eval.itemNamed span name v
  | _, .itemUnder span keySpan key v => Eval.itemUnder span keySpan key v
  | _, .assign span target op source => do Eval.assignTo span target op (← Run.contents source)
  | _, .print span v => Run.print span v

/-- A function that is declared is made with the name of its own cell. -/
theorem run_declareFunction (name : Text) (span : Span) (params : List Text) (code : Code)
    (m : Machine) :
    (declareFunction name span params code).run m = .ok () { m with
      scopes := m.scopes.bind name ⟨m.heap.cells.size⟩
      heap := (m.heap.newCell (.func
        ⟨span, params, code, m.scopes.snapshot.set name ⟨m.heap.cells.size⟩⟩)).2 } := by
  change Eval.knowItself name ⟨m.heap.cells.size⟩ { m with
    scopes := m.scopes.bind name ⟨m.heap.cells.size⟩
    heap := (m.heap.newCell (.func ⟨span, params, code, m.scopes.snapshot⟩)).2 } = _
  rw [Eval.knowItself_of_func (Heap.get_newCell_self m.heap _)]
  congr 2
  exact Heap.put_newCell m.heap _ _

/-- The text that an act prints on a machine. -/
def printed : {α : Type} → Act α → Machine → Text
  | _, .print _ v, m => m.heap.render v
  | _, _, _ => []

end Act

namespace Run

/-- Shows what was printed, before a word is asked for. -/
def showOutput (span : Span) : Run Unit := fun m =>
  let m := { m with output := m.output.beforeRead }
  if m.output.linked && m.output.failed then .error (.fault ⟨.flushFailed, span, []⟩) m else .ok () m

/-- Takes the next word of the input. -/
def takeWord (span : Span) (what : Text) : Run Text := fun m =>
  let entered := m.input.source.entered
  match m.input.read with
  | (result, input) =>
    let sink := { m.output.sink with
      atLineStart := m.output.sink.atLineStart || entered < input.source.entered }
    let m := { m with input := input, output := { m.output with sink := sink } }
    match result with
    | .ok w => .ok w m
    | .error stop =>
      match stop.cause? with
      | some cause => .error (.fault ⟨.inputFailed what cause, span, []⟩) m
      | none => .error (.fault ⟨.inputEnded what, span, []⟩) m

theorem readWord_eq (span : Span) (what : Text) :
    readWord span what = (do showOutput span; takeWord span what) := by
  funext m
  change _ = EStateM.bind (showOutput span) (fun _ => takeWord span what) m
  unfold EStateM.bind readWord showOutput
  dsimp only
  split <;> rfl

/-- The value that a word stands for, in a fresh cell. -/
def understand (span : Span) : ReadKind → Text → Run CellRef
  | .int, w =>
    match Integer.read w with
    | .ok n => newCell (.int n)
    | .error _ => fail span (.badInteger w)
  | .real, w =>
    match Real.read? w with
    | some x => newCell (.real x)
    | none => fail span (.badReal w)
  | .string, w => newCell (.string w)

/-- Takes the next word of the input and the value that it stands for. -/
def takeValue (span : Span) (kind : ReadKind) : Run CellRef := do
  understand span kind (← takeWord span (Vocabulary.spelling kind))

theorem readValue_eq (span : Span) (kind : ReadKind) :
    (do newCell (← readValue span (.known kind))) =
      (do showOutput span; takeValue span kind) := by
  simp only [readValue, takeValue, readWord_eq, bind_assoc]
  congr 1
  funext _
  congr 1
  funext w
  cases kind with
  | int => dsimp only [understand]; cases Integer.read w <;> rfl
  | real => dsimp only [understand]; cases Real.read? w <;> rfl
  | string => rfl

end Run

/-- The machine in which the code of a function starts, called with the given arguments. -/
def Machine.enter (m : Machine) (f : Closure) (arguments : List CellRef) : Machine :=
  { m with
    calls := m.calls + 1
    scopes := m.scopes.openWith (some ⟨.function, f.span, []⟩)
      (f.captured.override (f.params.zip arguments)) }

/-- What an evaluation does. -/
inductive Plan : Type → Type 1 where
  | pure {α : Type} (a : α) : Plan α
  | bind {α β : Type} (x : Plan α) (f : α → Plan β) : Plan β
  | act {α : Type} (a : Act α) : Plan α
  | stop {α : Type} (s : Stop) : Plan α
  /-- What was printed is shown before the next word of the input is taken. -/
  | read (span : Span) (kind : ReadKind) : Plan CellRef
  /-- A part in a frame of its own. -/
  | frame (owner : Owner) (x : Plan Unit) : Plan Unit
  /-- Calls the function in a cell; what it does depends on the function. -/
  | call (limit : Nat) (site : Span) (c : CellRef) (arguments : Plan (List CellRef))
      (code : Closure → Plan (Option CellRef)) : Plan CellRef
  /-- One round of a loop and then the rest of it. -/
  | round (body next : Plan Unit) : Plan Unit

/-- What was done at one point of an evaluation, with the machine before it. -/
inductive Deed : Type 1 where
  | act {α : Type} (a : Act α) (m : Machine)
  /-- The source of the input was asked for a word. -/
  | asked (span : Span) (kind : ReadKind) (m : Machine)
  /-- The code of a function started. -/
  | entered (f : Closure) (m : Machine)

namespace Deed

def machine : Deed → Machine
  | act _ m | asked _ _ m | entered _ m => m

def printed : Deed → Text
  | act a m => a.printed m
  | asked .. | entered .. => []

end Deed

namespace Plan

variable {α β : Type}

instance : Monad Plan where
  pure := pure
  bind := bind

def fail (span : Span) (fault : Fault) : Plan α := stop (.fault ⟨fault, span, []⟩)

/-- Calls a function with the given arguments; `x` is its code. -/
def invoke (limit : Nat) (site : Span) (f : Closure) (arguments : List CellRef)
    (x : Run (Option CellRef)) : Run CellRef := do
  if arguments.length ≠ f.arity then Run.fail site (.arity f.arity arguments.length)
  else
    if limit ≤ (← get).calls then Run.fail site (.tooManyCalls limit)
    else
      let bindings := f.captured.override (f.params.zip arguments)
      Eval.asCall site (Run.inFrame ⟨.function, f.span, []⟩ bindings x)

def run : {α : Type} → Plan α → Run α
  | _, .pure a => Pure.pure a
  | _, .bind x f => x.run >>= fun a => (f a).run
  | _, .act a => a.run
  | _, .stop s => throw s
  | _, .read span kind => do showOutput span; takeValue span kind
  | _, .frame owner x => Run.inFrame owner [] x.run
  | _, .call limit site c arguments code => do
    match ← Run.contents c with
    | .func f => invoke limit site f (← arguments.run) (code f).run
    | v => Run.fail site (.callOf v.type)
  | _, .round body next => Run.round body.run next.run

/-- What comes after a part that may have stopped. -/
def following (r : EStateM.Result Stop Machine α) (next : α → Machine → List Deed) : List Deed :=
  match r with
  | .ok a m => next a m
  | .error _ _ => []

/-- What an evaluation does when it starts from a machine, in order. -/
def deeds : {α : Type} → Plan α → Machine → List Deed
  | _, .pure _, _ | _, .stop _, _ => []
  | _, .bind x f, m => x.deeds m ++ following (x.run m) fun a m => (f a).deeds m
  | _, .act a, m => [.act a m]
  | _, .read span kind, m => following (showOutput span m) fun _ m => [.asked span kind m]
  | _, .frame owner x, m => x.deeds { m with scopes := m.scopes.openWith (some owner) [] }
  | _, .call limit _ c arguments code, m =>
    match m.heap.get c with
    | .func f => arguments.deeds m ++ following (arguments.run m) fun cells m =>
      if cells.length = f.arity ∧ m.calls < limit then
        .entered f (m.enter f cells) :: (code f).deeds (m.enter f cells)
      else []
    | _ => []
  | _, .round body next, m => body.deeds m ++
    match body.run m with
    | .ok _ m | .error (.cont _) m => next.deeds m
    | .error _ _ => []

/-- What is printed, in order. -/
def printed (x : Plan α) (m : Machine) : Text := (x.deeds m).flatMap Deed.printed

def forCount (body : Int64 → Plan Unit) : (count : Nat) → (v : Int64) → Plan Unit
  | 0, _ => .pure ()
  | count + 1, v => .round (body v) (forCount body count (v + 1))

def whileHolds (condition : Plan Bool) (body : Plan Unit) : (rounds : Nat) → Plan Unit
  | 0 => .stop .exhausted
  | rounds + 1 => do
    if ← condition then .round body (whileHolds condition body rounds) else .pure ()

/-- The parts of a function literal that is a whole expression. -/
def directFunction? : Expr → Option (Span × List Text × Code)
  | .mk _ [.mk _ none (.literal _ (.function span params b)) none] [] =>
    some (span, params, .statements b)
  | .mk _ [.mk _ none (.literal _ (.lambda span params result)) none] [] =>
    some (span, params, .expression result)
  | _ => none

/-- What the code of a function does, given what expressions and statements do. -/
def code (expr : Expr → Plan CellRef) (statement : Statement → Plan Unit) (f : Closure) :
    Plan (Option CellRef) :=
  match f.code with
  | .expression e => do return some (← expr e)
  | .statements b => do
    b.statements.forM statement
    return none

mutual

def expr (cfg : Settings) : (fuel : Nat) → Expr → Plan CellRef
  | 0, _ => .stop .exhausted
  | _ + 1, .missing => fail .zero .missingExpression
  | _ + 1, .mk span [] _ => fail span .emptyExpression
  | n + 1, .mk span (x :: xs) ops =>
    if xs.length ≠ ops.length then fail span (.operandCount (xs.length + 1) ops.length)
    else match xs, ops with
      | y :: ys, op :: ops => do
        let first ← .act (.contents (← operand cfg n x))
        let second ← .act (.contents (← operand cfg n y))
        let rest ← ys.mapM' fun x => do .act (.contents (← operand cfg n x))
        .act (.reduce cfg.associativity span first op second (ops.zip rest))
      | _, _ => operand cfg n x

def operand (cfg : Settings) : (fuel : Nat) → Operand → Plan CellRef
  | 0, _ => .stop .exhausted
  | n + 1, .mk span op p test => do
    let c ← primary cfg n p
    if given : (op.isNone && test.isNone) = false then
      .act (.operand span op test given (← .act (.contents c)))
    else .pure c

def primary (cfg : Settings) : (fuel : Nat) → Primary → Plan CellRef
  | 0, _ => .stop .exhausted
  | _ + 1, .read span (.other w _) => fail span (.unknownPrimary w)
  | _ + 1, .read span (.known kind) => .read span kind
  | n + 1, .literal _ l => literal cfg n l
  | n + 1, .paren _ inner => expr cfg n inner
  | n + 1, .ref span name tails => do tails.foldlM (tail cfg n) (← .act (.lookup span name))

def tail (cfg : Settings) : (fuel : Nat) → CellRef → Tail → Plan CellRef
  | 0, _, _ => .stop .exhausted
  | _ + 1, c, .index span position => do .act (.itemAt span position (← .act (.contents c)))
  | _ + 1, c, .field span name => do .act (.itemNamed span name (← .act (.contents c)))
  | n + 1, c, .subscript span key => do
    let v ← .act (.contents c)
    .act (.itemUnder span key.span (← expr cfg n key) v)
  -- no bound is left for the code, nor for the arguments
  | 1, c, .call span _ => do
    match ← .act (.contents c) with
    | .func _ => .stop .exhausted
    | v => fail span (.callOf v.type)
  | n + 2, c, .call span arguments =>
    .call cfg.maxCalls span c (arguments.mapM' (expr cfg (n + 1))) (code (expr cfg n) (statement cfg n))

def literal (cfg : Settings) : (fuel : Nat) → Literal → Plan CellRef
  | 0, _ => .stop .exhausted
  | _ + 1, .missing => fail .zero .missingLiteral
  | _ + 1, .integer _ k => .act (.scalar (.int k) rfl)
  | _ + 1, .real _ x => .act (.scalar (.real x) rfl)
  | _ + 1, .boolean _ b => .act (.scalar (.bool b) rfl)
  | _ + 1, .string _ t => .act (.scalar (.string t) rfl)
  | _ + 1, .empty _ => .act (.scalar .empty rfl)
  | n + 1, .array _ es => do .act (.array (← es.mapM' (expr cfg n)))
  | n + 1, .tuple span es => do
    let fields ← es.mapM' fun | .mk _ name value => do return (name, ← expr cfg n value)
    .act (.tuple span fields)
  | _ + 1, .function span params b => .act (.function span params (.statements b))
  | _ + 1, .lambda span params result => .act (.function span params (.expression result))

def condition (cfg : Settings) : (fuel : Nat) → (construct : String) → Expr → Plan Bool
  | 0, _, _ => .stop .exhausted
  | n + 1, construct, e => do
    match ← .act (.contents (← expr cfg n e)) with
    | .bool b => return b
    | v => fail e.span (.conditionNotBoolean construct v.type)

def bound (cfg : Settings) : (fuel : Nat) → (which : String) → Expr → Plan Int64
  | 0, _, _ => .stop .exhausted
  | n + 1, which, e => do
    match ← .act (.contents (← expr cfg n e)) with
    | .int k => return k
    | v => fail e.span (.boundNotInteger which v.type)

def statement (cfg : Settings) : (fuel : Nat) → Statement → Plan Unit
  | 0, _ => .stop .exhausted
  | n + 1, .declare _ name initial =>
    if initial.isMissing then do .act (.bind name (← .act (.scalar .empty rfl)))
    else match directFunction? initial with
      | some (span, params, code) =>
        -- the literal stands under an expression, an operand and a primary
        if n < 4 then .stop .exhausted else .act (.declareFunction name span params code)
      | none => do .act (.bind name (← expr cfg n initial))
  | n + 1, .assign span target op value => do
    let c ← primary cfg n target
    match op with
    | none => return ()
    | some op =>
      if value.isMissing then return ()
      else .act (.assign span c op (← expr cfg n value))
  | n + 1, .branch _ e yes no => do
    if ← condition cfg n "if" e then block cfg n yes else block cfg n no
  | n + 1, .forLoop span counter low high b => do
    let low ← bound cfg n "lower" low
    let high ← bound cfg n "upper" high
    .frame ⟨.forLoop, span, []⟩
      (forCount (fun v => do
        .act (.bind counter (← .act (.scalar (.int v) rfl)))
        block cfg n b) (high.toInt - low.toInt + 1).toNat low)
  | n + 1, .whileLoop _ e b => whileHolds (condition cfg n "while" e) (block cfg n b) n
  | n + 1, .print span arguments =>
    arguments.forM fun e => do .act (.print span (← .act (.contents (← expr cfg n e))))
  | n + 1, .ret _ value => do
    let c ← if value.isMissing then .act (.scalar .empty rfl) else expr cfg n value
    .stop (.ret c)
  | _ + 1, .brk span => .stop (.brk span)
  | _ + 1, .cont span => .stop (.cont span)
  | n + 1, .block b => block cfg n b

def block (cfg : Settings) : (fuel : Nat) → Body → Plan Unit
  | 0, _ => .stop .exhausted
  | _ + 1, .missing => .pure ()
  | n + 1, .mk span ss _ => .frame ⟨.body, span, []⟩ (ss.forM (statement cfg n))

end

def program (cfg : Settings) (fuel : Nat) (p : Program) : Plan Unit :=
  p.body.statements.forM (statement cfg fuel)

end Plan

end CellScript
