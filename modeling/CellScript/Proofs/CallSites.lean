import CellScript.Parser
import CellScript.Proofs.Trace.Unwinding

/-! The call sites of an error. An error that ends a run names the calls that were open where it
started, innermost first and at most sixteen of them; only a jump out of a loop that is not there
leaves out the call in which it stands. -/
namespace CellScript

open Run

namespace Trace

/-- Under a bound of `n`, every traced evaluation unwinds. -/
structure Unwinding (cfg : Settings) (n : Nat) : Prop where
  expr (active : List Activation) (e : Expr) : (expr cfg n active e).Unwinds active
  operand (active : List Activation) (x : Operand) : (operand cfg n active x).Unwinds active
  primary (active : List Activation) (p : Primary) : (primary cfg n active p).Unwinds active
  tail (active : List Activation) (c : CellRef) (t : Tail) : (tail cfg n active c t).Unwinds active
  call (active : List Activation) (f : Closure) (arguments : List CellRef) (site : Span) :
    (call cfg n active f arguments site).Unwinds active
  literal (active : List Activation) (l : Literal) : (literal cfg n active l).Unwinds active
  condition (active : List Activation) (node : TreeNode) (construct : String) (e : Expr) :
    (condition cfg n active node construct e).Unwinds active
  bound (active : List Activation) (node : TreeNode) (which : String) (e : Expr) :
    (bound cfg n active node which e).Unwinds active
  statement (active : List Activation) (s : Statement) : (statement cfg n active s).Unwinds active
  block (active : List Activation) (b : Body) : (block cfg n active b).Unwinds active

namespace Unwinding

open Traced.Unwinds

variable {cfg : Settings} {n : Nat} {active : List Activation}

theorem contents (c : CellRef) : (Traced.quiet (Run.contents c)).Unwinds active :=
  quiet fun _ => ⟨_, _, rfl⟩

theorem newCell (v : Value) : (Traced.quiet (Run.newCell v)).Unwinds active :=
  quiet fun _ => ⟨_, _, rfl⟩

theorem bindName (name : Text) (c : CellRef) : (Traced.quiet (Run.bindName name c)).Unwinds active :=
  quiet fun _ => ⟨_, _, rfl⟩

theorem closure (span : Span) (params : List Text) (code : Code) :
    (Traced.quiet (Eval.closure span params code)).Unwinds active :=
  quiet fun _ => ⟨_, _, rfl⟩

theorem knowItself (name : Text) (c : CellRef) :
    (Traced.quiet (Eval.knowItself name c)).Unwinds active := by
  refine quiet fun m => ?_
  unfold Eval.knowItself
  change ∃ a m', EStateM.bind (Run.contents c) _ m = .ok a m'
  unfold EStateM.bind Run.contents
  dsimp only
  cases m.heap.get c <;> exact ⟨_, _, rfl⟩

theorem sequence (unwinding : Unwinding cfg n) (active : List Activation) (ss : List Statement) :
    (sequence active (Trace.statement cfg n active) ss).Unwinds active :=
  during (forM (unwinding.statement active) ss) _

theorem code (unwinding : Unwinding cfg n) (active : List Activation) (code : Code) :
    (match code with
      | .expression e => do return some (← Trace.expr cfg n active e)
      | .statements b => do
        Trace.sequence active (Trace.statement cfg n active) b.statements
        return none : Traced (Option CellRef)).Unwinds active := by
  cases code with
  | expression e => exact bind (unwinding.expr _ e) fun c => pure (some c)
  | statements b => exact bind (unwinding.sequence _ b.statements) fun _ => pure none

theorem expr_succ (unwinding : Unwinding cfg n) (active : List Activation) (e : Expr) :
    (Trace.expr cfg (n + 1) active e).Unwinds active := by
  match e with
  | .missing => exact during (own (.fail FaultKind.noConfusion _) _) _
  | .mk span [] ops => exact during (own (.fail FaultKind.noConfusion _) _) _
  | .mk span (x :: xs) ops =>
    simp only [Trace.expr]
    apply during
    split
    · exact own (.fail FaultKind.noConfusion _) _
    split
    · exact unwinding.operand active x
    refine bind (unwinding.operand active x) fun c => bind (contents c) fun first => ?_
    refine bind (mapM (fun x => ?_) xs) fun rest => ?_
    · exact bind (unwinding.operand active x) contents
    · exact bind (own (.reduce _ _ _ _ _) _) newCell

theorem operand_succ (unwinding : Unwinding cfg n) (active : List Activation) (x : Operand) :
    (Trace.operand cfg (n + 1) active x).Unwinds active := by
  obtain ⟨span, op, p, test⟩ := x
  simp only [Trace.operand]
  apply during
  refine bind (unwinding.primary active p) fun c => ?_
  split
  · exact pure c
  · exact bind (contents c) fun v => bind (own (.operand op test span v) _) newCell

theorem primary_succ (unwinding : Unwinding cfg n) (active : List Activation) (p : Primary) :
    (Trace.primary cfg (n + 1) active p).Unwinds active := by
  cases p with
  | read span kind => exact during (bind (own (.readValue span kind) _) newCell) _
  | literal span l => exact during (unwinding.literal active l) _
  | paren span inner => exact during (unwinding.expr active inner) _
  | ref span name tails =>
    simp only [Trace.primary]
    apply during
    exact bind (own (.lookup span name) _) fun c => foldlM (unwinding.tail active) tails c

theorem tail_succ (unwinding : Unwinding cfg n) (active : List Activation) (c : CellRef) (t : Tail) :
    (Trace.tail cfg (n + 1) active c t).Unwinds active := by
  simp only [Trace.tail]
  refine during (bind (contents c) fun v => ?_) _
  cases t with
  | index span position => exact own (.itemAt span position v) _
  | field span name => exact own (.itemNamed span name v) _
  | subscript span key =>
    exact bind (unwinding.expr active key) fun k => own (.itemUnder span _ k v) _
  | call span arguments =>
    cases v with
    | func f =>
      refine bind (mapM (unwinding.expr active) arguments) fun cells => ?_
      exact unwinding.call active f cells span
    | _ => exact own (.fail FaultKind.noConfusion _) _

theorem call_succ (unwinding : Unwinding cfg n) (active : List Activation) (f : Closure)
    (arguments : List CellRef) (site : Span) :
    (Trace.call cfg (n + 1) active f arguments site).Unwinds active := by
  simp only [Trace.call]
  apply during
  split
  · exact own (.fail FaultKind.noConfusion _) _
  refine bind (quiet fun _ => ⟨_, _, rfl⟩) fun m => ?_
  split
  · exact own (.fail FaultKind.noConfusion _) _
  -- inside, this call is one more that is open
  refine asCall ⟨f, site⟩ (inFrame (unwinding.code _ f.code) ?_ _ _ _) _
  exact ((discipline cfg n).code _ f.code).scopes

theorem literal_succ (unwinding : Unwinding cfg n) (active : List Activation) (l : Literal) :
    (Trace.literal cfg (n + 1) active l).Unwinds active := by
  simp only [Trace.literal]
  apply during
  cases l with
  | missing => exact own (.fail FaultKind.noConfusion _) _
  | integer | real | boolean | string | empty => exact newCell _
  | array span es =>
    refine bind (mapM (unwinding.expr active) es) fun cells => ?_
    exact bind (quiet fun _ => ⟨_, _, rfl⟩) newCell
  | tuple span es =>
    refine bind (mapM ?_ es) fun fields => bind (own (.newTuple span fields) _) newCell
    rintro ⟨_, name, value⟩
    exact bind (unwinding.expr active value) fun c => pure (name, c)
  | function span params b => exact closure _ _ _
  | lambda span params result => exact closure _ _ _

theorem condition_succ (unwinding : Unwinding cfg n) (active : List Activation) (node : TreeNode)
    (construct : String) (e : Expr) :
    (Trace.condition cfg (n + 1) active node construct e).Unwinds active := by
  simp only [Trace.condition]
  refine bind (unwinding.expr active e) fun c => bind (contents c) fun v => own ?_ _
  cases v with
  | bool b => exact .pure b
  | _ => exact .fail FaultKind.noConfusion _

theorem bound_succ (unwinding : Unwinding cfg n) (active : List Activation) (node : TreeNode)
    (which : String) (e : Expr) :
    (Trace.bound cfg (n + 1) active node which e).Unwinds active := by
  simp only [Trace.bound]
  refine bind (unwinding.expr active e) fun c => bind (contents c) fun v => own ?_ _
  cases v with
  | int k => exact .pure k
  | _ => exact .fail FaultKind.noConfusion _

/-- The rounds of a counting loop. -/
theorem rounds (unwinding : Unwinding cfg n) (active : List Activation) (counter : Text) (b : Body)
    (count : Nat) (v : Int64) :
    (Traced.forCount (fun v => do
      let c ← Traced.quiet (Run.newCell (.int v))
      Traced.quiet (Run.bindName counter c)
      Trace.block cfg n active b) count v).Unwinds active := by
  refine forCount (fun v => ?_) count v
  exact bind (newCell _) fun c => bind (bindName counter c) fun _ => unwinding.block active b

/-- A jump out of a loop is itself what stops the evaluation. -/
theorem jump {stop : Stop} {node : TreeNode}
    (starts : ∀ m m', stop.StartsAt active ⟨active, .ended node m m'⟩) :
    (Traced.during active node (Traced.quiet (throw stop) : Traced Unit)).Unwinds active := by
  intro m stop' m' stopped _
  cases stopped
  exact (ComesTo.single (starts m m)).prepend [_]

theorem statement_succ (unwinding : Unwinding cfg n) (active : List Activation) (s : Statement) :
    (Trace.statement cfg (n + 1) active s).Unwinds active := by
  simp only [Trace.statement]
  cases s with
  | brk span => exact jump fun m m' => .brk
  | cont span => exact jump fun m m' => .cont
  | declare span name initial =>
    apply during
    dsimp only
    split
    · exact bind (newCell _) fun c => bindName name c
    · refine bind (unwinding.expr active initial) fun c => bind (bindName name c) fun _ => ?_
      split
      · exact knowItself name c
      · exact pure ()
  | assign span target op value =>
    apply during
    refine bind (unwinding.primary active target) fun c => ?_
    cases op with
    | none => exact pure ()
    | some op =>
      dsimp only
      split
      · exact pure ()
      · refine bind (unwinding.expr active value) fun d => bind (contents d) fun v => ?_
        exact own (.assignTo span c op v) _
  | branch span e yes no =>
    apply during
    refine bind (unwinding.condition active _ "if" e) fun holds => ?_
    split
    · exact unwinding.block active yes
    · exact unwinding.block active no
  | forLoop span counter low high b =>
    apply during
    refine bind (unwinding.bound active _ "lower" low) fun low => ?_
    refine bind (unwinding.bound active _ "upper" high) fun high => ?_
    refine inFrame (unwinding.rounds active counter b _ _) ?_ _ _ _
    exact ((discipline cfg n).rounds active counter b _ _).scopes
  | whileLoop span e b =>
    apply during
    exact whileHolds (unwinding.condition active _ "while" e) (unwinding.block active b) n
  | print span arguments =>
    apply during
    refine forM (fun e => ?_) arguments
    exact bind (unwinding.expr active e) fun c => bind (contents c) fun v => own (.print span v) _
  | ret span value =>
    apply during
    dsimp only
    split
    · exact bind (newCell _) fun c => throw rfl
    · exact bind (unwinding.expr active value) fun c => throw rfl
  | block b => exact during (unwinding.block active b) _

theorem block_succ (unwinding : Unwinding cfg n) (active : List Activation) (b : Body) :
    (Trace.block cfg (n + 1) active b).Unwinds active := by
  cases b with
  | missing => exact during (pure ()) _
  | mk span ss cleared =>
    refine during (inFrame (unwinding.sequence active ss) ?_ _ _ _) _
    exact ((discipline cfg n).sequence active ss).scopes

end Unwinding

theorem unwinding (cfg : Settings) (n : Nat) : Unwinding cfg n := by
  induction n with
  | zero => constructor <;> intros <;> exact Traced.Unwinds.throw rfl
  | succ n unwinding =>
    exact {
      expr := unwinding.expr_succ
      operand := unwinding.operand_succ
      primary := unwinding.primary_succ
      tail := unwinding.tail_succ
      call := unwinding.call_succ
      literal := unwinding.literal_succ
      condition := unwinding.condition_succ
      bound := unwinding.bound_succ
      statement := unwinding.statement_succ
      block := unwinding.block_succ }

end Trace

/-- The moments come to the failure that the error tells of. The error names the calls that are open
then. -/
def RuntimeError.NamesOpenCalls (e : RuntimeError) (moments : List Moment) : Prop :=
  ComesTo moments fun moment => moment.event.Fails e ∧ e.Records moment.active

/-- Outside of all calls, an evaluation ends with the error of what stopped it. -/
theorem Stop.names_open_calls {stop : Stop} {moments : List Moment} {e : RuntimeError}
    (comes : ComesTo moments (stop.StartsAt [])) (failed : Eval.outcome stop = .failed e) :
    e.NamesOpenCalls moments := by
  refine comes.mono fun moment starts => ?_
  cases starts with
  | brk =>
    cases failed
    exact ⟨.brk rfl, rfl⟩
  | cont =>
    cases failed
    exact ⟨.cont rfl, rfl⟩
  | fault fails _ records =>
    cases failed
    rw [List.append_nil]
    exact ⟨fails, records⟩

theorem Eval.isAlarm_of_outcome {stop : Stop} {e : RuntimeError} (failed : outcome stop = .failed e) :
    stop.isAlarm = true := by
  cases stop with
  | brk _ | cont _ | fault _ => rfl
  | ret _ | exhausted => cases failed

/-- Only a stop makes a program fail, and it fails as the stop says. -/
theorem Eval.stop_of_failed {r : EStateM.Result Stop Machine Unit} {e : RuntimeError}
    (failed : (conclude r).1 = .failed e) :
    ∃ stop m, r = .error stop m ∧ outcome stop = .failed e := by
  cases r with
  | ok _ m =>
    simp only [conclude, finish] at failed
    split at failed <;> cases failed
  | error stop m =>
    refine ⟨stop, m, rfl, ?_⟩
    cases stop with
    | ret c =>
      simp only [conclude, finish] at failed
      split at failed <;> cases failed
    | brk _ | cont _ | fault _ => exact failed
    | exhausted => cases failed

/-- An error that a program or an expression ends with names the calls that were open where it
started: their places, innermost first, up to sixteen of them. A `break` or `continue` outside of a
loop becomes an error only when the call around it is left; it names the calls around that one. -/
theorem errors_name_open_calls (cfg : Settings) (fuel : Nat) (m : Machine) (e : RuntimeError) :
    (∀ p, (Eval.program cfg fuel p m).1 = .failed e →
      e.NamesOpenCalls ((Trace.program cfg fuel p).moments m)) ∧
    ∀ x stop, (Eval.expression cfg fuel x m).1 = .error stop → Eval.outcome stop = .failed e →
      e.NamesOpenCalls ((Trace.expr cfg fuel [] x).moments m) := by
  have unwinding := Trace.unwinding cfg fuel
  constructor
  · intro p failed
    rw [Eval.program_eq_conclude, ← (Trace.program_accounts cfg fuel p).run_eq] at failed
    obtain ⟨stop, m', stopped, ends⟩ := Eval.stop_of_failed failed
    have comes := unwinding.sequence [] p.body.statements m stop m' stopped
    exact Stop.names_open_calls (comes (Eval.isAlarm_of_outcome ends)) ends
  · intro x stop failed ends
    unfold Eval.expression at failed
    rw [← ((Trace.recorded cfg fuel).expr [] x).run_eq] at failed
    cases stopped : (Trace.expr cfg fuel [] x).run m with
    | ok c m' =>
      rw [stopped] at failed
      cases failed
    | error stop' m' =>
      rw [stopped] at failed
      cases failed
      have comes := unwinding.expr [] x m stop m' stopped
      exact Stop.names_open_calls (comes (Eval.isAlarm_of_outcome ends)) ends

namespace Example

/-- How the program of a source ends, with room for twenty calls. -/
def ending (source : Text) : Option (Program × RuntimeError) :=
  match Parser.parse source with
  | .ok p =>
    match (Eval.program ⟨.right, 20⟩ 120 p .initial).1 with
    | .failed e => some (p, e)
    | _ => none
  | .error _ => none

theorem failed_of_ending {source : Text} {p : Program} {e : RuntimeError}
    (ends : ending source = some (p, e)) :
    Parser.parse source = .ok p ∧ (Eval.program ⟨.right, 20⟩ 120 p .initial).1 = .failed e := by
  unfold ending at ends
  split at ends
  next q parses =>
    split at ends
    next failed =>
      cases ends
      exact ⟨parses, failed⟩
    next => cases ends
  next => cases ends

/-- A place in the first line. -/
def columns (start stop : Nat) : Span := ⟨⟨1, start⟩, ⟨1, stop⟩⟩

/-- Two functions that call each other until there is no more room. -/
def volley : Text := utf8 "var f := func() => g(); var g := func() => f(); f()"

def served : Expr :=
  .mk (columns 1 4) [.mk (columns 1 4) none (.ref (columns 1 4) (utf8 "f") [.call (columns 2 4) []])
    none] []

def after (p : Program) : Machine := (Eval.program ⟨.right, 20⟩ 120 p .initial).2

/-- How the call of the first function fails after the program of a source. -/
def endingServed (source : Text) : Option RuntimeError :=
  (ending source).bind fun (p, _) =>
    match (Eval.expression ⟨.right, 20⟩ 120 served (after p)).1 with
    | .error (.fault e) => some e
    | _ => none

/-- The sites that calls between two functions leave behind, innermost first. -/
def exchanged : List Span := (List.replicate 8 [columns 21 23, columns 45 47]).flatten

end Example

open Example in
/-- Twenty calls are open in the end, of which sixteen are named: when the program itself makes the
first call, and when an expression after it does. -/
theorem errors_name_open_calls_volley :
    (∃ p e, Parser.parse volley = .ok p ∧
      (Eval.program ⟨.right, 20⟩ 120 p .initial).1 = .failed e ∧ e.calls = exchanged ∧
      e.NamesOpenCalls ((Trace.program ⟨.right, 20⟩ 120 p).moments .initial)) ∧
    ∃ p e, Parser.parse volley = .ok p ∧
      (Eval.expression ⟨.right, 20⟩ 120 served (after p)).1 = .error (.fault e) ∧
      e.calls = exchanged ∧
      e.NamesOpenCalls ((Trace.expr ⟨.right, 20⟩ 120 [] served).moments (after p)) := by
  constructor
  · have named : (ending volley).map (·.2.calls) = some exchanged := by decide +kernel
    obtain ⟨⟨p, e⟩, ends, calls⟩ := Option.map_eq_some_iff.mp named
    obtain ⟨parses, failed⟩ := failed_of_ending ends
    exact ⟨p, e, parses, failed, calls, (errors_name_open_calls _ _ _ e).1 p failed⟩
  · have named : (endingServed volley).map (·.calls) = some exchanged := by decide +kernel
    obtain ⟨e, ends, calls⟩ := Option.map_eq_some_iff.mp named
    obtain ⟨⟨p, _⟩, first, second⟩ := Option.bind_eq_some_iff.mp ends
    dsimp only at second
    split at second
    next stopped =>
      cases second
      exact ⟨p, e, (failed_of_ending first).1, stopped, calls,
        (errors_name_open_calls _ _ _ e).2 served _ stopped rfl⟩
    next => cases second

namespace Example

/-- A function that tries to leave a loop. -/
def breakAway : Text := utf8 "var f := func() is break end; f()"

/-- The `break` statements that end, with the calls that are open there. -/
def jumps (moments : List Moment) : List (Span × List Span) :=
  moments.filterMap fun moment =>
    match moment.event with
    | .ended (.statement (.brk span)) _ _ => some (span, moment.sites)
    | _ => none

def isStrayBreak : Fault → Bool
  | .strayBreak => true
  | _ => false

theorem eq_strayBreak {fault : Fault} (is : isStrayBreak fault = true) : fault = .strayBreak := by
  unfold isStrayBreak at is
  split at is
  next => rfl
  next => cases is

theorem mem_of_jumps {moments : List Moment} {span : Span} {sites : List Span}
    (jump : (span, sites) ∈ jumps moments) :
    ∃ moment ∈ moments, moment.sites = sites ∧
      ∀ e : RuntimeError, e.fault = .strayBreak → e.span = span → moment.event.Fails e := by
  obtain ⟨⟨active, event⟩, member, found⟩ := List.mem_filterMap.mp jump
  dsimp only at found
  split at found
  next ended =>
    cases found
    refine ⟨_, member, rfl, ?_⟩
    rintro e fault rfl
    exact .brk fault
  next => cases found

end Example

open Example in
/-- The call in which a stray `break` stands is open when it fails, but the error does not name it. -/
theorem stray_break_unnamed :
    ∃ p e, Parser.parse breakAway = .ok p ∧
      (Eval.program ⟨.right, 20⟩ 120 p .initial).1 = .failed e ∧ e.calls = [] ∧
      ∃ moment ∈ (Trace.program ⟨.right, 20⟩ 120 p).moments .initial,
        moment.event.Fails e ∧ moment.sites = [columns 32 34] := by
  have seen : (ending breakAway).map (fun (p, e) => (isStrayBreak e.fault, e.span, e.calls,
      jumps ((Trace.program ⟨.right, 20⟩ 120 p).moments .initial))) =
      some (true, columns 20 25, [], [(columns 20 25, [columns 32 34])]) := by decide +kernel
  obtain ⟨⟨p, e⟩, ends, same⟩ := Option.map_eq_some_iff.mp seen
  obtain ⟨parses, failed⟩ := failed_of_ending ends
  obtain ⟨fault, span, calls, jump⟩ := by simpa only [Prod.mk.injEq] using same
  obtain ⟨moment, member, sites, fails⟩ := mem_of_jumps (jump ▸ List.mem_singleton_self _)
  exact ⟨p, e, parses, failed, calls, moment, member, fails e (eq_strayBreak fault) span, sites⟩

end CellScript
