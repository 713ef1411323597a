import CellScript.Proofs.Discipline
import CellScript.Proofs.Optimize.Forming
import CellScript.Proofs.Parsing.Image
import CellScript.Proofs.Shape.Steps
import CellScript.Proofs.Tree.RoundTrip

/-! Faults of a tree's shape do not come up. Sources, files and passes give formed trees, machines
that ran nothing else hold formed code only, and formed code never fails for its shape. -/
namespace CellScript

open Run

/-- A traced step that only adds bindings to the innermost frame tells the same of the plain one. -/
theorem Orderly.grows {α : Type} {cfg : Settings} {t : Traced α} {x : Run α}
    (orderly : Orderly cfg Scopes.Grown t) (accounts : Accounts t x) (m : Machine) :
    m.scopes.Grown (reached (x m)).scopes := by
  rw [← accounts.run_eq]
  exact orderly.scopes m

namespace Eval

/-- Every part of a tree that is formed keeps code formed when it is evaluated. -/
structure Sturdy (cfg : Settings) (words : Bool) (n : Nat) : Prop where
  expr (e : Expr) (formed : Formed.expr words e) : (expr cfg n e).Sturdy words
  operand (x : Operand) (formed : Formed.operand words x) : (operand cfg n x).Sturdy words
  primary (p : Primary) (formed : Formed.primary words p) : (primary cfg n p).Sturdy words
  tail (c : CellRef) (t : Tail) (formed : Formed.tail words t) : (tail cfg n c t).Sturdy words
  call (f : Closure) (arguments : List CellRef) (site : Span) (formed : Formed.code words f.code) :
    (call cfg n f arguments site).Sturdy words
  literal (l : Literal) (formed : Formed.literal words l) : (literal cfg n l).Sturdy words
  condition (construct : String) (e : Expr) (formed : Formed.expr words e) :
    (condition cfg n construct e).Sturdy words
  bound (which : String) (e : Expr) (formed : Formed.expr words e) :
    (bound cfg n which e).Sturdy words
  statement (s : Statement) (formed : Formed.statement words s) : (statement cfg n s).Sturdy words
  block (b : Body) (formed : Formed.body words b) : (block cfg n b).Sturdy words

namespace Sturdy

variable {cfg : Settings} {words : Bool} {n : Nat}

theorem statements (sturdy : Sturdy cfg words n) {ss : List Statement}
    (formed : Formed.statements words ss) : (ss.forM (Eval.statement cfg n)).Sturdy words :=
  .forM fun s member => sturdy.statement s (Formed.statements_iff.mp formed s member)

theorem exprs (sturdy : Sturdy cfg words n) {es : List Expr} (formed : Formed.exprs words es) :
    (es.mapM (Eval.expr cfg n)).Forms words fun cells => ∀ c ∈ cells, True :=
  .mapM fun e member => sturdy.expr e (Formed.exprs_iff.mp formed e member)

theorem expr_succ (sturdy : Sturdy cfg words n) (e : Expr) (formed : Formed.expr words e) :
    (Eval.expr cfg (n + 1) e).Sturdy words := by
  match e with
  | .missing => cases formed
  | .mk span [] ops =>
    simp only [Formed.expr, Bool.and_eq_true, beq_iff_eq, List.length_nil] at formed
    omega
  | .mk span (x :: xs) ops =>
    simp only [Formed.expr, Formed.operands, Bool.and_eq_true, beq_iff_eq, List.length_cons,
      Nat.add_right_cancel_iff] at formed
    obtain ⟨⟨count, known⟩, first, others⟩ := formed
    simp only [Eval.expr]
    rw [if_neg (not_not_intro count)]
    have each (x : Operand) (member : x ∈ xs) : Forms words (Formed.value words ·)
        (do contents (← Eval.operand cfg n x)) := by
      refine .bind (sturdy.operand x (Formed.operands_iff.mp others x member)) fun c _ => ?_
      exact .contents c
    split
    · exact sturdy.operand x first
    · refine .bind (sturdy.operand x first) fun c _ => .bind (.contents c) fun v here => ?_
      refine .bind (.mapM each) fun vs there => ?_
      exact .bind (.reduce known here there span) fun w result => .newCell result

theorem operand_succ (sturdy : Sturdy cfg words n) (x : Operand)
    (formed : Formed.operand words x) : (Eval.operand cfg (n + 1) x).Sturdy words := by
  obtain ⟨span, op, p, test⟩ := x
  simp only [Eval.operand]
  refine .bind (sturdy.primary p formed) fun c _ => ?_
  split
  · exact .pure trivial
  · refine .bind (.contents c) fun v here => ?_
    exact .bind (.operand here span) fun w result => .newCell result

theorem primary_succ (sturdy : Sturdy cfg words n) (p : Primary)
    (formed : Formed.primary words p) : (Eval.primary cfg (n + 1) p).Sturdy words := by
  cases p with
  | read span kind =>
    cases kind with
    | other _ _ => cases formed
    | known kind =>
      simp only [Eval.primary]
      exact .bind (.readValue span kind) fun v result => .newCell result
  | literal span l =>
    simp only [Eval.primary]
    exact sturdy.literal l formed
  | paren span inner =>
    simp only [Eval.primary]
    exact sturdy.expr inner formed
  | ref span name ts =>
    simp only [Eval.primary]
    refine .bind (.lookup span name) fun c _ => .foldlM (fun t member c => ?_) c
    exact sturdy.tail c t (Formed.tails_iff.mp formed t member)

theorem tail_succ (sturdy : Sturdy cfg words n) (c : CellRef) (t : Tail)
    (formed : Formed.tail words t) : (Eval.tail cfg (n + 1) c t).Sturdy words := by
  simp only [Eval.tail]
  refine .bind (.contents c) fun v here => ?_
  cases t with
  | index span position => exact .itemAt span position v
  | field span name => exact .itemNamed span name v
  | subscript span key => exact .bind (sturdy.expr key formed) fun k _ => .itemUnder span _ k v
  | call span arguments =>
    cases v with
    | func f => exact .bind (sturdy.exprs formed) fun cells _ => sturdy.call f cells span here
    | _ => exact .refuse span

theorem call_succ (sturdy : Sturdy cfg words n) (f : Closure) (arguments : List CellRef)
    (site : Span) (formed : Formed.code words f.code) :
    (Eval.call cfg (n + 1) f arguments site).Sturdy words := by
  simp only [Eval.call]
  split
  · exact .refuse site
  · refine .bind .get fun m _ => ?_
    split
    · exact .refuse site
    · have orderly := (Trace.discipline cfg n).code [] f.code
      have accounts := (Trace.recorded cfg n).code [] f.code
      refine .asCall (.inFrame ?_ (orderly.grows accounts) _ _) site
      cases code : f.code with
      | expression e =>
        rw [code] at formed
        exact .bind (sturdy.expr e formed) fun c _ => .pure trivial
      | statements b =>
        rw [code] at formed
        refine .bind (sturdy.statements ?_) fun _ _ => .pure trivial
        cases b with
        | missing => rfl
        | mk _ _ _ => exact formed

theorem literal_succ (sturdy : Sturdy cfg words n) (l : Literal)
    (formed : Formed.literal words l) : (Eval.literal cfg (n + 1) l).Sturdy words := by
  cases l with
  | missing => cases formed
  | integer | real | boolean | string | empty =>
    simp only [Eval.literal]
    exact .newCell rfl
  | array span es =>
    simp only [Eval.literal]
    refine .bind (sturdy.exprs formed) fun cells _ => ?_
    exact .bind (.newArray cells) fun v result => .newCell result
  | tuple span es =>
    simp only [Eval.literal]
    refine .bind (.mapM (W := fun _ => True) fun e member => ?_) fun fields _ => ?_
    · obtain ⟨_, name, value⟩ := e
      have inner := Formed.elements_iff.mp formed _ member
      exact .bind (sturdy.expr value inner) fun c _ => .pure trivial
    · exact .bind (.newTuple span fields) fun v result => .newCell result
  | function span params b =>
    have inner : Formed.code words (.statements b) := formed
    simp only [Eval.literal]
    exact .closure inner span params
  | lambda span params result =>
    have inner : Formed.code words (.expression result) := formed
    simp only [Eval.literal]
    exact .closure inner span params

theorem condition_succ (sturdy : Sturdy cfg words n) (construct : String) (e : Expr)
    (formed : Formed.expr words e) : (Eval.condition cfg (n + 1) construct e).Sturdy words := by
  simp only [Eval.condition]
  refine .bind (sturdy.expr e formed) fun c _ => .bind (.contents c) fun v _ => ?_
  cases v with
  | bool b => exact .pure trivial
  | _ => exact .refuse e.span

theorem bound_succ (sturdy : Sturdy cfg words n) (which : String) (e : Expr)
    (formed : Formed.expr words e) : (Eval.bound cfg (n + 1) which e).Sturdy words := by
  simp only [Eval.bound]
  refine .bind (sturdy.expr e formed) fun c _ => .bind (.contents c) fun v _ => ?_
  cases v with
  | int k => exact .pure trivial
  | _ => exact .refuse e.span

theorem statement_succ (sturdy : Sturdy cfg words n) (s : Statement)
    (formed : Formed.statement words s) : (Eval.statement cfg (n + 1) s).Sturdy words := by
  cases s with
  | declare span name initial =>
    simp only [Formed.statement, Bool.or_eq_true] at formed
    simp only [Eval.statement]
    by_cases absent : initial.isMissing
    · rw [if_pos absent]
      exact .bind (.newCell rfl) fun c _ => .bindName name c
    · rw [if_neg absent]
      refine .bind (sturdy.expr initial (formed.resolve_left absent)) fun c _ => ?_
      refine .bind (.bindName name c) fun _ _ => ?_
      split
      · exact .knowItself name c
      · exact .pure trivial
  | assign span target op value =>
    simp only [Formed.statement, Bool.and_eq_true, Bool.or_eq_true] at formed
    obtain ⟨⟨place, known⟩, assigned⟩ := formed
    simp only [Eval.statement]
    refine .bind (sturdy.primary target place) fun c _ => ?_
    cases op with
    | none => exact .pure trivial
    | some op =>
      dsimp only
      by_cases absent : value.isMissing
      · rw [if_pos absent]
        exact .pure trivial
      · rw [if_neg absent]
        refine .bind (sturdy.expr value (assigned.resolve_left absent)) fun d _ => ?_
        exact .bind (.contents d) fun v result => .assignTo known result span c
  | branch span e yes no =>
    simp only [Formed.statement, Bool.and_eq_true] at formed
    simp only [Eval.statement]
    refine .bind (sturdy.condition "if" e formed.1.1) fun holds _ => ?_
    split
    · exact sturdy.block yes formed.1.2
    · exact sturdy.block no formed.2
  | forLoop span counter low high b =>
    simp only [Formed.statement, Bool.and_eq_true] at formed
    simp only [Eval.statement]
    refine .bind (sturdy.bound "lower" low formed.1.1) fun first _ => ?_
    refine .bind (sturdy.bound "upper" high formed.1.2) fun last _ => ?_
    have orderly := (Trace.discipline cfg n).rounds [] counter b
    have accounts := (Trace.recorded cfg n).rounds [] counter b
    refine .inFrame (.forCount (fun v => ?_) _ _) ((orderly _ _).grows (accounts _ _)) _ _
    refine .bind (.newCell rfl) fun c _ => .bind (.bindName counter c) fun _ _ => ?_
    exact sturdy.block b formed.2
  | whileLoop span e b =>
    simp only [Formed.statement, Bool.and_eq_true] at formed
    simp only [Eval.statement]
    exact .whileHolds (sturdy.condition "while" e formed.1) (sturdy.block b formed.2) n
  | print span arguments =>
    simp only [Eval.statement]
    refine .forM fun e member => ?_
    refine .bind (sturdy.expr e (Formed.exprs_iff.mp formed e member)) fun c _ => ?_
    exact .bind (.contents c) fun v _ => .print span v
  | ret span value =>
    simp only [Formed.statement, Bool.or_eq_true] at formed
    simp only [Eval.statement]
    have returns (c : CellRef) : Run.Sturdy words (throw (.ret c) : Run Unit) :=
      .throw fun e same => Stop.noConfusion same
    by_cases absent : value.isMissing
    · rw [if_pos absent]
      exact .bind (.newCell rfl) fun c _ => returns c
    · rw [if_neg absent]
      exact .bind (sturdy.expr value (formed.resolve_left absent)) fun c _ => returns c
  | brk span =>
    simp only [Eval.statement]
    exact .throw fun e same => Stop.noConfusion same
  | cont span =>
    simp only [Eval.statement]
    exact .throw fun e same => Stop.noConfusion same
  | block b =>
    simp only [Eval.statement]
    exact sturdy.block b formed

theorem block_succ (sturdy : Sturdy cfg words n) (b : Body) (formed : Formed.body words b) :
    (Eval.block cfg (n + 1) b).Sturdy words := by
  cases b with
  | missing =>
    simp only [Eval.block]
    exact .pure trivial
  | mk span ss cleared =>
    simp only [Eval.block]
    exact .inFrame (sturdy.statements formed) (fun m => (statements_keep cfg n ss m).1) _ _

end Sturdy

theorem sturdy (cfg : Settings) (words : Bool) (n : Nat) : Sturdy cfg words n := by
  induction n with
  | zero =>
    have out {α : Type} : Run.Sturdy words (throw .exhausted : Run α) :=
      .throw fun e same => Stop.noConfusion same
    constructor <;> intros <;> exact out
  | succ n sturdy =>
    exact {
      expr := sturdy.expr_succ
      operand := sturdy.operand_succ
      primary := sturdy.primary_succ
      tail := sturdy.tail_succ
      call := sturdy.call_succ
      literal := sturdy.literal_succ
      condition := sturdy.condition_succ
      bound := sturdy.bound_succ
      statement := sturdy.statement_succ
      block := sturdy.block_succ }

variable {cfg : Settings} {words : Bool} {m : Machine}

theorem formed_statements {p : Program} (formed : p.isFormed words) :
    Formed.statements words p.body.statements := by
  obtain ⟨span, b⟩ := p
  cases b with
  | missing => rfl
  | mk _ _ _ => exact formed

/-- A run of a formed program leaves formed code in the cells, and fails only for faults that fit. -/
theorem program_forms {p : Program} (formed : p.isFormed words)
    (heap : m.heap.All (Formed.value words ·)) (fuel : Nat) :
    (program cfg fuel p m).2.heap.All (Formed.value words ·) ∧
      ∀ e, (program cfg fuel p m).1 = .failed e → e.fault.Fits words := by
  have ran := (sturdy cfg words fuel).statements (formed_statements formed) m heap
  rw [program_eq_conclude]
  generalize p.body.statements.forM (statement cfg fuel) m = r at ran
  cases ran with
  | @ok _ m' _ heap =>
    refine ⟨heap, fun e failed => ?_⟩
    simp only [conclude, finish] at failed
    split at failed <;> cases failed
  | @error stop m' fits heap =>
    cases stop with
    | ret c =>
      refine ⟨heap, fun e failed => ?_⟩
      simp only [conclude, finish] at failed
      split at failed <;> cases failed
    | fault e =>
      refine ⟨heap, ?_⟩
      rintro e' ⟨⟩
      exact fits e rfl
    | brk _ | cont _ =>
      refine ⟨heap, ?_⟩
      rintro e ⟨⟩
      exact .of_kind nofun
    | exhausted =>
      refine ⟨heap, ?_⟩
      rintro e ⟨⟩

theorem expression_forms {e : Expr} (formed : Formed.expr words e)
    (heap : m.heap.All (Formed.value words ·)) (fuel : Nat) :
    (expression cfg fuel e m).2.heap.All (Formed.value words ·) := by
  have ran := (sturdy cfg words fuel).expr e formed m heap
  rw [expression_reached]
  generalize expr cfg fuel e m = r at ran
  cases ran with
  | ok _ heap => exact heap
  | error _ heap => exact heap

end Eval

/-! ### Where trees and machines come from -/

/-- Trees that sources, passes and, if they are let in, files give. A file may be read by any codec whose
numbers are numerals. -/
inductive Made (files : Bool) : Program → Prop where
  | parsed {source : Text} {p : Program} (accepted : Parser.parse source = .ok p) : Made files p
  | decoded {c : Json.Codec} {text : Text} {p : Program} (admitted : files = true)
      (numeric : c.Numeric) (accepted : Decoding.decodeWith c text = .ok p) : Made files p
  | optimised {p : Program} (made : Made files p) (assoc : Associativity)
      (passes : List Optimize.Pass) (bound : Nat) :
    Made files (Optimize.rounds assoc passes bound p).2

/-- Machines that have run nothing but such trees. An expression stands in a statement of one. -/
inductive Built (cfg : Settings) (files : Bool) : Machine → Prop where
  | initial : Built cfg files .initial
  | connect {m : Machine} (built : Built cfg files m) (input : WordReader) (output : Output) :
    Built cfg files { m with input := input, output := output }
  | program {m : Machine} {p : Program} (built : Built cfg files m) (made : Made files p)
      (fuel : Nat) : Built cfg files (Eval.program cfg fuel p m).2
  | expression {m : Machine} {p : Program} {span : Span} {arguments : List Expr} {e : Expr}
      (built : Built cfg files m) (made : Made files p)
      (stands : .print span arguments ∈ p.body.statements) (member : e ∈ arguments) (fuel : Nat) :
    Built cfg files (Eval.expression cfg fuel e m).2

variable {cfg : Settings} {files : Bool} {m : Machine} {p : Program}

theorem Parser.expressible_of_parse {source : Text} (accepted : parse source = .ok p) :
    p.expressible true := by
  unfold parse at accepted
  cases read : Lexer.read source with
  | error e =>
    rw [read] at accepted
    cases accepted
  | ok ts =>
    rw [read] at accepted
    exact expressible_of_parseTokens (Lexer.lexical_of_read read) accepted

theorem Made.isFormed (made : Made files p) : p.isFormed (!files) := by
  induction made with
  | parsed accepted => exact Program.isFormed_of_expressible (Parser.expressible_of_parse accepted)
  | decoded admitted numeric accepted =>
    rw [admitted]
    exact Program.isFormed_of_isRegular (decodeWith_settled numeric accepted).regular
  | optimised _ assoc passes bound ih => exact Optimize.formed_rounds assoc passes bound ih

theorem Built.heap (built : Built cfg files m) : m.heap.All (Formed.value (!files) ·) := by
  induction built with
  | initial => exact fun v member => absurd member (Array.not_mem_empty v)
  | connect _ _ _ ih => exact ih
  | program _ made fuel ih => exact (Eval.program_forms made.isFormed ih fuel).1
  | expression _ made stands member fuel ih =>
    have inner := Formed.statements_iff.mp (Eval.formed_statements made.isFormed) _ stands
    exact Eval.expression_forms (Formed.exprs_iff.mp inner _ member) ih fuel

/-- Whatever trees of sources and files a machine has run, and whatever passes went over them, a run
of another one never fails because a part is missing, operands and operators do not match, a kind
is unknown or a frame is gone. If all of them come from sources, an output that could not be written
is the only internal fault. -/
theorem shape_faults_unreachable (built : Built cfg files m) (made : Made files p) (fuel : Nat)
    {e : RuntimeError} (failed : (Eval.program cfg fuel p m).1 = .failed e) :
    e.fault.ofShape = false ∧
      (files = false → e.fault.kind = .internal → e.fault = .writeFailed) := by
  obtain ⟨shape, internal⟩ := (Eval.program_forms made.isFormed built.heap fuel).2 e failed
  refine ⟨shape, ?_⟩
  rintro rfl
  exact internal rfl

namespace Example

def parsed (source : Text) : Program := (Parser.parse source).toOption.getD ⟨.zero, .missing⟩

theorem made_parsed {source : Text} (accepted : (Parser.parse source).toOption.isSome = true) :
    Made files (parsed source) := by
  unfold parsed
  cases parses : Parser.parse source with
  | error e =>
    rw [parses] at accepted
    cases accepted
  | ok p => exact .parsed parses

def divides : Program :=
  (Optimize.rounds .right Optimize.Pass.all 16 (parsed (utf8 "var f := func(x) => x / (1 - 1)"))).2

def prepared : Machine := (Eval.program ⟨.right, 2⟩ 60 divides .initial).2

def calls : Program := parsed (utf8 "print f(1)")

theorem calls_fails : fails (Eval.program ⟨.right, 2⟩ 60 calls prepared).1 = true := by
  decide +kernel

end Example

open Example in
/-- A function from an earlier program fails, for another reason than its shape. -/
theorem shape_faults_unreachable_divides :
    ∃ e, (Eval.program ⟨.right, 2⟩ 60 calls prepared).1 = .failed e ∧ e.fault.ofShape = false := by
  have made : Made false divides := .optimised (made_parsed (by decide +kernel)) _ _ _
  have built : Built ⟨.right, 2⟩ false prepared := .program .initial made 60
  have called : Made false calls := made_parsed (by decide +kernel)
  cases ended : (Eval.program ⟨.right, 2⟩ 60 calls prepared).1 with
  | failed e => exact ⟨e, rfl, (shape_faults_unreachable built called 60 ended).1⟩
  | _ =>
    have failed := calls_fails
    rw [ended] at failed
    cases failed

end CellScript
