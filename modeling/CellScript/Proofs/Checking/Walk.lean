import CellScript.Check
import CellScript.Proofs.Trace

/-! The walk of the static checks as a relation: which nodes of a program they look at, in which
function literal each of them stands and what is known there. Where the checks report no error in a
program, they report none at any node of the walk. -/
namespace CellScript

namespace Check

/-- Nothing that keeps a program from running. -/
def Clean (fs : List Finding) : Prop := anyError fs = false

instance (fs : List Finding) : Decidable (Clean fs) := inferInstanceAs (Decidable (_ = _))

theorem clean_append {fs gs : List Finding} : Clean (fs ++ gs) ↔ Clean fs ∧ Clean gs := by
  simp only [Clean, anyError, List.any_append, Bool.or_eq_false_iff]

theorem clean_nil : Clean [] := rfl

theorem clean_reportIf {bad : Bool} {problem : Problem} {span : Span}
    (serious : problem.severity = .error) : Clean (reportIf bad problem span) ↔ bad = false := by
  cases bad with
  | false => exact iff_of_true clean_nil rfl
  | true => simp [Clean, anyError, reportIf, Finding.isError, serious]

/-- Findings that are put together one part after the other. -/
theorem forall_clean {α : Type} {all : List α → List Finding} {one : α → List Finding}
    (step : ∀ x xs, all (x :: xs) = one x ++ all xs) {xs : List α} (clean : Clean (all xs)) :
    ∀ x ∈ xs, Clean (one x) := by
  induction xs with
  | nil => exact fun _ member => absurd member List.not_mem_nil
  | cons x xs ih =>
    rw [step] at clean
    obtain ⟨first, rest⟩ := clean_append.mp clean
    exact List.forall_mem_cons.mpr ⟨first, ih rest⟩

theorem clean_exprs {c : Context} {es : List Expr} (clean : Clean (exprs c es)) :
    ∀ e ∈ es, Clean (expr c [] e) := forall_clean (fun _ _ => rfl) clean

theorem clean_operands {c : Context} {xs : List Operand} (clean : Clean (operands c xs)) :
    ∀ x ∈ xs, Clean (operand c [] x) := forall_clean (fun _ _ => rfl) clean

theorem clean_tails {c : Context} {ts : List Tail} (clean : Clean (tails c ts)) :
    ∀ t ∈ ts, Clean (tail c t) := forall_clean (fun _ _ => rfl) clean

theorem clean_elements {c : Context} {seen : List Text} {es : List Element}
    (clean : Clean (elements c seen es)) :
    ∀ span name value, Element.mk span name value ∈ es → Clean (expr c [] value) := by
  induction es generalizing seen with
  | nil => exact fun _ _ _ member => absurd member List.not_mem_nil
  | cons e es ih =>
    obtain ⟨span, name, value⟩ := e
    obtain ⟨first, rest⟩ := clean_append.mp clean
    intro span' name' value' member
    rcases List.mem_cons.mp member with same | member
    · cases same
      exact (clean_append.mp first).1
    · exact ih rest span' name' value' member

theorem body_eq (c : Context) (b : Body) : body c b = statements (c.enter []) b.statements := by
  cases b <;> rfl

theorem functionBody_eq (c : Context) (b : Body) : functionBody c b = statements c b.statements := by
  cases b <;> rfl

/-- The findings about the operands of an expression that is not declared. -/
theorem expr_anonymous (c : Context) (span : Span) (xs : List Operand) (ops : List (Word BinaryOp)) :
    expr c [] (.mk span xs ops) = operands c xs := by
  match xs with
  | [] => rfl
  | [x] => exact (List.append_nil _).symm
  | x :: y :: xs => rfl

theorem operand_anonymous (c : Context) (span : Span) (op : Option (Word UnaryOp)) (p : Primary)
    (test : Option (Word TypeName)) : operand c [] (.mk span op p test) = primary c [] p := by
  cases op <;> cases test <;> rfl

namespace Context

def names (c : Context) : List Text := c.scopes.flatten

theorem mem_names_enter {c : Context} {name : Text} {more : List Text} :
    name ∈ (c.enter more).names ↔ name ∈ more ∨ name ∈ c.names := by
  simp only [names, enter, List.flatten_cons, List.mem_append]

theorem mem_names_declare {c : Context} {name other : Text} (known : other ∈ (c.declare name).names) :
    other = name ∨ other ∈ c.names := by
  unfold declare at known
  split at known
  next names outer scopes =>
    simp only [Context.names, scopes, List.flatten_cons, List.cons_append, List.mem_cons] at known ⊢
    exact known
  next => exact .inr known

theorem mem_names_enterFunction {c : Context} {self name : Text} {params : List Text} :
    name ∈ (c.enterFunction self params).names ↔
      name ∈ params ∨ name ∈ (c.enterFunction self []).names := by
  unfold enterFunction
  simp only [mem_names_enter, List.not_mem_nil, false_or]

theorem mem_names_enterFunction_self {c : Context} {self name : Text} :
    name ∈ (c.enterFunction self []).names ↔ (self ≠ [] ∧ name = self) ∨ name ∈ c.names := by
  cases self with
  | nil =>
    change name ∈ c.names ↔ _
    simp
  | cons letter letters =>
    change name ∈ (letter :: letters) :: c.names ↔ _
    simp

theorem knows_iff {c : Context} {name : Text} :
    c.knows name = true ↔
      name ∈ c.names ∨ name ∈ c.globals ∨ (c.inFunction = true ∧ name ∈ c.hoisted) := by
  simp only [knows, names, Bool.or_eq_true, Bool.and_eq_true, List.any_eq_true, List.contains_iff_mem,
    List.mem_flatten, or_assoc]

end Context

end Check

namespace Literal

def function? : Literal → Option (List Text × Code)
  | .function _ params b => some (params, .statements b)
  | .lambda _ params result => some (params, .expression result)
  | _ => none

end Literal

/-- What is evaluated when code runs. -/
def Code.node : Code → TreeNode
  | .statements b => .statements b.statements
  | .expression e => .expr e

namespace Closure

/-- The literal that denotes the function. -/
def literal (f : Closure) : Literal :=
  match f.code with
  | .statements b => .function f.span f.params b
  | .expression e => .lambda f.span f.params e

theorem function?_literal (f : Closure) : f.literal.function? = some (f.params, f.code) := by
  unfold literal
  split
  next b code => rw [code, Literal.function?]
  next e code => rw [code, Literal.function?]

end Closure

/-- What the checks say about a node. -/
def TreeNode.findings (c : Check.Context) (self : Text) : TreeNode → List Check.Finding
  | .expr e => Check.expr c self e
  | .operand x => Check.operand c self x
  | .primary p => Check.primary c self p
  | .tail t => Check.tail c t
  | .literal l => Check.literal c self l
  | .call _ _ => []
  | .statement s => Check.statement c s
  | .statements ss => Check.statements c ss
  | .block b => Check.body c b

theorem Literal.findings_function {l : Literal} {params : List Text} {code : Code}
    (isFunction : l.function? = some (params, code)) (c : Check.Context) (self : Text) :
    Check.literal c self l = Check.duplicateParams l.span [] params ++
      code.node.findings (c.enterFunction self params) [] := by
  cases l with
  | function span params b =>
    cases isFunction
    simp only [Check.literal, Code.node, TreeNode.findings, Check.functionBody_eq, Literal.span]
  | lambda span params result =>
    cases isFunction
    rfl
  | _ => cases isFunction

theorem Eval.exists_of_isFunctionLiteral {e : Expr} (isLiteral : Eval.isFunctionLiteral e = true) :
    ∃ span span' span'' l ops params code,
      e = .mk span [.mk span' none (.literal span'' l) none] ops ∧
        l.function? = some (params, code) := by
  unfold Eval.isFunctionLiteral at isLiteral
  split at isLiteral
  · exact ⟨_, _, _, _, _, _, _, rfl, rfl⟩
  · exact ⟨_, _, _, _, _, _, _, rfl, rfl⟩
  · cases isLiteral

/-- The name of a declaration matters to a function literal only. -/
theorem Check.expr_forget {e : Expr} (other : Eval.isFunctionLiteral e = false) (c : Check.Context)
    (name : Text) : Check.expr c name e = Check.expr c [] e := by
  match e with
  | .missing => rfl
  | .mk span [] ops => rfl
  | .mk span (x :: y :: xs) ops => rfl
  | .mk span [.mk _ op p test] ops =>
    cases op with
    | some op => rfl
    | none =>
      cases test with
      | some test => rfl
      | none =>
        cases p with
        | literal _ l =>
          cases l with
          | function | lambda => cases other
          | _ => rfl
        | _ => rfl

structure Origin where
  seeds : List Text
  program : Program

namespace Origin

open Check

/-- The names that the top level of the program declares. -/
def declared (o : Origin) : List Text := declaredNames o.program.body.statements

/-- What is known at the start of the program. -/
def context (o : Origin) : Context := ⟨o.seeds, o.seeds ++ o.declared, [[]], false, false⟩

def Clean (o : Origin) : Prop := Check.Clean (Check.program o.seeds o.program)

end Origin

/-- The checks of a program come to a node. `home` is the function literal whose code the node
belongs to, if there is one. A function literal that is declared is visited under its name. -/
inductive Visits (o : Origin) : (home : Option Literal) → Check.Context → (self : Text) → TreeNode → Prop
  | program : Visits o none o.context [] (.statements o.program.body.statements)
  | first {home c s ss} (list : Visits o home c [] (.statements (s :: ss))) :
    Visits o home c [] (.statement s)
  | rest {home c s ss} (list : Visits o home c [] (.statements (s :: ss))) :
    Visits o home (c.after s) [] (.statements ss)
  | declared {home c span span' span'' span₃ name l ops}
      (visit : Visits o home c [] (.statement (.declare span name
        (.mk span' [.mk span'' none (.literal span₃ l) none] ops)))) :
    Visits o home c name (.literal l)
  | initial {home c span name e} (visit : Visits o home c [] (.statement (.declare span name e)))
      (other : Eval.isFunctionLiteral e = false) : Visits o home c [] (.expr e)
  | target {home c span p op e} (visit : Visits o home c [] (.statement (.assign span p op e))) :
    Visits o home c [] (.primary p)
  | value {home c span p op e} (visit : Visits o home c [] (.statement (.assign span p op e))) :
    Visits o home c [] (.expr e)
  | condition {home c span e yes no}
      (visit : Visits o home c [] (.statement (.branch span e yes no))) : Visits o home c [] (.expr e)
  | yes {home c span e yes no} (visit : Visits o home c [] (.statement (.branch span e yes no))) :
    Visits o home c [] (.block yes)
  | no {home c span e yes no} (visit : Visits o home c [] (.statement (.branch span e yes no))) :
    Visits o home c [] (.block no)
  | low {home c span counter low high b}
      (visit : Visits o home c [] (.statement (.forLoop span counter low high b))) :
    Visits o home c [] (.expr low)
  | high {home c span counter low high b}
      (visit : Visits o home c [] (.statement (.forLoop span counter low high b))) :
    Visits o home c [] (.expr high)
  | forBody {home c span counter low high b}
      (visit : Visits o home c [] (.statement (.forLoop span counter low high b))) :
    Visits o home { c.enter [counter] with inLoop := true } [] (.block b)
  | whileCondition {home c span e b}
      (visit : Visits o home c [] (.statement (.whileLoop span e b))) : Visits o home c [] (.expr e)
  | whileBody {home c span e b} (visit : Visits o home c [] (.statement (.whileLoop span e b))) :
    Visits o home { c with inLoop := true } [] (.block b)
  | printed {home c span es e} (visit : Visits o home c [] (.statement (.print span es)))
      (member : e ∈ es) : Visits o home c [] (.expr e)
  | returned {home c span e} (visit : Visits o home c [] (.statement (.ret span e))) :
    Visits o home c [] (.expr e)
  | block {home c b} (visit : Visits o home c [] (.statement (.block b))) :
    Visits o home c [] (.block b)
  | inside {home c b} (visit : Visits o home c [] (.block b)) :
    Visits o home (c.enter []) [] (.statements b.statements)
  | operand {home c span xs ops x} (visit : Visits o home c [] (.expr (.mk span xs ops)))
      (member : x ∈ xs) : Visits o home c [] (.operand x)
  | primary {home c span op p test} (visit : Visits o home c [] (.operand (.mk span op p test))) :
    Visits o home c [] (.primary p)
  | literal {home c span l} (visit : Visits o home c [] (.primary (.literal span l))) :
    Visits o home c [] (.literal l)
  | paren {home c span e} (visit : Visits o home c [] (.primary (.paren span e))) :
    Visits o home c [] (.expr e)
  | tail {home c span name ts t} (visit : Visits o home c [] (.primary (.ref span name ts)))
      (member : t ∈ ts) : Visits o home c [] (.tail t)
  | subscript {home c span e} (visit : Visits o home c [] (.tail (.subscript span e))) :
    Visits o home c [] (.expr e)
  | argument {home c span es e} (visit : Visits o home c [] (.tail (.call span es)))
      (member : e ∈ es) : Visits o home c [] (.expr e)
  | item {home c span es e} (visit : Visits o home c [] (.literal (.array span es)))
      (member : e ∈ es) : Visits o home c [] (.expr e)
  | element {home c span es span' name e} (visit : Visits o home c [] (.literal (.tuple span es)))
      (member : .mk span' name e ∈ es) : Visits o home c [] (.expr e)
  | code {home c self l params code} (visit : Visits o home c self (.literal l))
      (isFunction : l.function? = some (params, code)) :
    Visits o (some l) (c.enterFunction self params) [] code.node

/-- The literal of the function stands in the program. -/
def Origin.Wrote (o : Origin) (f : Closure) : Prop :=
  ∃ home c self, Visits o home c self (.literal f.literal)

namespace Visits

open Check

variable {o : Origin} {home : Option Literal} {c : Context} {self : Text} {node : TreeNode}

/-- The checks report no error at a node of a program in which they report none. -/
theorem clean (visit : Visits o home c self node) (clean : o.Clean) :
    Check.Clean (node.findings c self) := by
  induction visit with
  | program => exact clean
  | first _ ih => exact (clean_append.mp ih).1
  | rest _ ih => exact (clean_append.mp ih).2
  | declared _ ih => exact (clean_append.mp ih).1
  | initial _ other ih =>
    have initial := (clean_append.mp ih).1
    rw [expr_forget other] at initial
    exact initial
  | target _ ih => exact (clean_append.mp ih).1
  | value _ ih => exact (clean_append.mp ih).2
  | condition _ ih => exact (clean_append.mp (clean_append.mp ih).1).1
  | yes _ ih => exact (clean_append.mp (clean_append.mp ih).1).2
  | no _ ih => exact (clean_append.mp ih).2
  | low _ ih => exact (clean_append.mp (clean_append.mp ih).1).1
  | high _ ih => exact (clean_append.mp (clean_append.mp ih).1).2
  | forBody _ ih => exact (clean_append.mp ih).2
  | whileCondition _ ih => exact (clean_append.mp ih).1
  | whileBody _ ih => exact (clean_append.mp ih).2
  | printed _ member ih => exact clean_exprs ih _ member
  | returned _ ih => exact (clean_append.mp ih).2
  | block _ ih => exact ih
  | inside _ ih =>
    simp only [TreeNode.findings, body_eq] at ih
    exact ih
  | operand _ member ih =>
    simp only [TreeNode.findings, expr_anonymous] at ih
    exact clean_operands ih _ member
  | primary _ ih =>
    simp only [TreeNode.findings, operand_anonymous] at ih
    exact ih
  | literal _ ih => exact ih
  | paren _ ih => exact ih
  | tail _ member ih => exact clean_tails (clean_append.mp ih).2 _ member
  | subscript _ ih => exact ih
  | argument _ member ih => exact clean_exprs ih _ member
  | item _ member ih => exact clean_exprs ih _ member
  | element _ member ih => exact clean_elements ih _ _ _ member
  | code _ isFunction ih =>
    simp only [TreeNode.findings, Literal.findings_function isFunction] at ih
    exact (clean_append.mp ih).2

/-- What does not change on the walk, and what changes with the code of a function only. -/
theorem context_eq (visit : Visits o home c self node) :
    c.globals = o.seeds ∧ c.hoisted = o.seeds ++ o.declared ∧ c.inFunction = home.isSome := by
  induction visit with
  | program => exact ⟨rfl, rfl, rfl⟩
  | @rest home c s ss _ ih =>
    cases s with
    | declare span name e =>
      obtain ⟨globals, hoisted, scopes, inLoop, inFunction⟩ := c
      cases scopes <;> exact ih
    | _ => exact ih
  | @code home c self l params code _ _ ih =>
    have kept : (c.enterFunction self params).globals = c.globals ∧
        (c.enterFunction self params).hoisted = c.hoisted ∧
        (c.enterFunction self params).inFunction = true := by
      unfold Context.enterFunction
      split <;> exact ⟨rfl, rfl, rfl⟩
    exact ⟨kept.1.trans ih.1, kept.2.1.trans ih.2.1, kept.2.2⟩
  | _ => assumption

/-- A reference that the checks let pass: the name is declared in an open scope, was bound before
the program, or stands in a function and is declared at the top level. -/
theorem known_reference {span : Span} {name : Text} {ts : List Tail}
    (visit : Visits o home c self (.primary (.ref span name ts))) (clean : o.Clean) :
    name ∈ c.names ∨ name ∈ o.seeds ∨ (home.isSome ∧ name ∈ o.declared) := by
  have report := (clean_append.mp (visit.clean clean)).1
  rw [clean_reportIf rfl, Bool.not_eq_false', Context.knows_iff] at report
  obtain ⟨globals, hoisted, inFunction⟩ := visit.context_eq
  rw [globals, hoisted, inFunction, List.mem_append] at report
  rcases report with local' | seed | ⟨inside, seed | declared⟩
  · exact .inl local'
  · exact .inr (.inl seed)
  · exact .inr (.inl seed)
  · exact .inr (.inr ⟨inside, declared⟩)

theorem inLoop_of_brk {span : Span} (visit : Visits o home c self (.statement (.brk span)))
    (clean : o.Clean) : c.inLoop = true := by
  have report := visit.clean clean
  rw [TreeNode.findings, statement, clean_reportIf rfl, Bool.not_eq_false'] at report
  exact report

theorem inLoop_of_cont {span : Span} (visit : Visits o home c self (.statement (.cont span)))
    (clean : o.Clean) : c.inLoop = true := by
  have report := visit.clean clean
  rw [TreeNode.findings, statement, clean_reportIf rfl, Bool.not_eq_false'] at report
  exact report

end Visits

end CellScript
