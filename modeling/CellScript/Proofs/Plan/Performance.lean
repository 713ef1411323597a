import CellScript.Proofs.Plan

/-! Performing the plan of a part is evaluating it. -/
namespace CellScript

open Run

namespace Plan

variable {α β : Type}

theorem run_bind (x : Plan α) (f : α → Plan β) : (x >>= f).run = x.run >>= fun a => (f a).run := rfl

theorem run_pure (a : α) : (Pure.pure a : Plan α).run = Pure.pure a := rfl

theorem run_act (a : Act α) : (act a).run = a.run := rfl

theorem run_mapM (f : α → Plan β) (xs : List α) :
    (xs.mapM' f).run = xs.mapM fun x => (f x).run := by
  induction xs with
  | nil => rfl
  | cons x xs ih =>
    rw [List.mapM_cons, ← ih]
    rfl

theorem run_forM (f : α → Plan Unit) (xs : List α) :
    (xs.forM f).run = xs.forM fun x => (f x).run := by
  induction xs with
  | nil => rfl
  | cons x xs ih =>
    change (f x).run >>= (fun _ => (xs.forM f).run) = _
    rw [ih]
    rfl

theorem run_foldlM (f : β → α → Plan β) (xs : List α) (b : β) :
    (xs.foldlM f b).run = xs.foldlM (fun b x => (f b x).run) b := by
  induction xs generalizing b with
  | nil => rfl
  | cons x xs ih =>
    change (f b x).run >>= (fun b => (xs.foldlM f b).run) = _
    rw [funext ih]
    rfl

theorem run_forCount (body : Int64 → Plan Unit) (count : Nat) (v : Int64) :
    (forCount body count v).run = Run.forCount (fun v => (body v).run) count v := by
  induction count generalizing v with
  | zero => rfl
  | succ count ih =>
    change Run.round (body v).run (forCount body count (v + 1)).run = _
    rw [ih]
    rfl

theorem run_whileHolds (condition : Plan Bool) (body : Plan Unit) (rounds : Nat) :
    (whileHolds condition body rounds).run = Run.whileHolds condition.run body.run rounds := by
  induction rounds with
  | zero => rfl
  | succ rounds ih =>
    rw [Run.whileHolds_succ, ← ih]
    change condition.run >>= _ = _
    congr 1
    funext holds
    cases holds <;> rfl

end Plan

/-- Under a bound of `n`, the plans are performed as evaluation says. -/
structure Performed (cfg : Settings) (n : Nat) : Prop where
  expr (e : Expr) : (Plan.expr cfg n e).run = Eval.expr cfg n e
  operand (x : Operand) : (Plan.operand cfg n x).run = Eval.operand cfg n x
  primary (p : Primary) : (Plan.primary cfg n p).run = Eval.primary cfg n p
  tail (c : CellRef) (t : Tail) : (Plan.tail cfg n c t).run = Eval.tail cfg n c t
  literal (l : Literal) : (Plan.literal cfg n l).run = Eval.literal cfg n l
  condition (construct : String) (e : Expr) :
    (Plan.condition cfg n construct e).run = Eval.condition cfg n construct e
  bound (which : String) (e : Expr) : (Plan.bound cfg n which e).run = Eval.bound cfg n which e
  statement (s : Statement) : (Plan.statement cfg n s).run = Eval.statement cfg n s
  block (b : Body) : (Plan.block cfg n b).run = Eval.block cfg n b

namespace Performed

variable {cfg : Settings} {n : Nat}

theorem expr_succ (rec : Performed cfg n) (e : Expr) :
    (Plan.expr cfg (n + 1) e).run = Eval.expr cfg (n + 1) e := by
  match e with
  | .missing => rfl
  | .mk span [] ops => rfl
  | .mk span (x :: xs) ops =>
    simp only [Plan.expr, Eval.expr]
    split
    · rfl
    · rename_i agree
      match xs, ops with
      | [], _ => exact rec.operand x
      | _ :: _, [] => exact absurd (Nat.succ_ne_zero _) agree
      | y :: ys, op :: ops =>
        simp only [Plan.run_bind, Plan.run_mapM, Plan.run_act, Act.run, rec.operand,
          List.isEmpty_cons, Bool.false_eq_true, if_false, List.mapM_cons, bind_assoc, pure_bind,
          List.zip_cons_cons]

theorem operand_succ (rec : Performed cfg n) (x : Operand) :
    (Plan.operand cfg (n + 1) x).run = Eval.operand cfg (n + 1) x := by
  obtain ⟨span, op, p, test⟩ := x
  simp only [Plan.operand, Eval.operand, Plan.run_bind, rec.primary]
  congr 1
  funext c
  by_cases given : (op.isNone && test.isNone) = false
  · rw [dif_pos given, given]
    rfl
  · rw [dif_neg given, if_pos (by simpa using given)]
    rfl

theorem primary_succ (rec : Performed cfg n) (p : Primary) :
    (Plan.primary cfg (n + 1) p).run = Eval.primary cfg (n + 1) p := by
  match p with
  | .read span (.other w unknown) => rfl
  | .read span (.known kind) => exact (readValue_eq span kind).symm
  | .literal span l => exact rec.literal l
  | .paren span inner => exact rec.expr inner
  | .ref span name tails =>
    simp only [Plan.primary, Eval.primary, Plan.run_bind, Plan.run_foldlM, rec.tail]
    rfl

/-- Where a bound is left for the code of a function, a call invokes it. -/
theorem call_succ (rec : Performed cfg n) (f : Closure) (arguments : List CellRef) (site : Span) :
    Eval.call cfg (n + 1) f arguments site =
      Plan.invoke cfg.maxCalls site f arguments
        (Plan.code (Plan.expr cfg n) (Plan.statement cfg n) f).run := by
  obtain ⟨_, _, code, _⟩ := f
  cases code with
  | expression e => simp only [Eval.call, Plan.invoke, Plan.code, Plan.run_bind, rec.expr, Plan.run_pure]
  | statements b =>
    simp only [Eval.call, Plan.invoke, Plan.code, Plan.run_bind, Plan.run_forM, rec.statement,
      Plan.run_pure]

theorem tail_one (c : CellRef) (t : Tail) :
    (Plan.tail cfg 1 c t).run = Eval.tail cfg 1 c t := by
  cases t with
  | index span position => rfl
  | field span name => rfl
  | subscript span key => rfl
  | call span arguments =>
    simp only [Plan.tail, Eval.tail, Plan.run_bind]
    congr 1
    funext v
    cases v with
    | func f => cases arguments <;> rfl
    | _ => rfl

theorem tail_succ (rec : Performed cfg n) (args : Performed cfg (n + 1)) (c : CellRef) (t : Tail) :
    (Plan.tail cfg (n + 2) c t).run = Eval.tail cfg (n + 2) c t := by
  cases t with
  | index span position => rfl
  | field span name => rfl
  | subscript span key =>
    simp only [Plan.tail, Eval.tail, Plan.run_bind, args.expr]
    rfl
  | call span arguments =>
    simp only [Plan.tail, Eval.tail, Plan.run, Plan.run_mapM, args.expr]
    congr 1
    funext v
    cases v with
    | func f => simp only [rec.call_succ]
    | _ => rfl

theorem literal_succ (rec : Performed cfg n) (l : Literal) :
    (Plan.literal cfg (n + 1) l).run = Eval.literal cfg (n + 1) l := by
  cases l with
  | array span es =>
    simp only [Plan.literal, Eval.literal, Plan.run_bind, Plan.run_mapM, rec.expr]
    rfl
  | tuple span es =>
    simp only [Plan.literal, Eval.literal, Plan.run_bind, Plan.run_mapM]
    congr 2
    funext e
    obtain ⟨_, name, value⟩ := e
    simp only [Plan.run_bind, rec.expr]
    rfl
  | _ => rfl

theorem condition_succ (rec : Performed cfg n) (construct : String) (e : Expr) :
    (Plan.condition cfg (n + 1) construct e).run = Eval.condition cfg (n + 1) construct e := by
  simp only [Plan.condition, Eval.condition, Plan.run_bind, rec.expr]
  congr 1
  funext c
  congr 1
  funext v
  cases v <;> rfl

theorem bound_succ (rec : Performed cfg n) (which : String) (e : Expr) :
    (Plan.bound cfg (n + 1) which e).run = Eval.bound cfg (n + 1) which e := by
  simp only [Plan.bound, Eval.bound, Plan.run_bind, rec.expr]
  congr 1
  funext c
  congr 1
  funext v
  cases v <;> rfl

/-- A literal that is a whole expression stands under an operand and a primary. -/
theorem direct (cfg : Settings) (n : Nat) {initial : Expr} {span : Span} {params : List Text}
    {code : Code} (literal : Plan.directFunction? initial = some (span, params, code)) :
    Eval.isFunctionLiteral initial = true ∧
      Eval.expr cfg n initial = if n < 4 then throw .exhausted else Eval.closure span params code := by
  unfold Plan.directFunction? at literal
  split at literal
  all_goals cases literal
  all_goals
    constructor
    · rfl
    · match n with
      | 0 | 1 | 2 | 3 => rfl
      | n + 4 =>
        rw [if_neg (by omega)]
        rfl

/-- Operators without operands for them keep an expression from having a value. -/
theorem indirect {initial : Expr} {β : Type} (literal : Plan.directFunction? initial = none)
    (spelled : Eval.isFunctionLiteral initial = true) (next next' : CellRef → Run β) :
    Eval.expr cfg n initial >>= next = Eval.expr cfg n initial >>= next' := by
  unfold Eval.isFunctionLiteral at spelled
  split at spelled
  · rename_i ops
    cases ops with
    | nil => cases literal
    | cons op ops => cases n <;> rfl
  · rename_i ops
    cases ops with
    | nil => cases literal
    | cons op ops => cases n <;> rfl
  · cases spelled

theorem declare_succ (rec : Performed cfg n) (span : Span) (name : Text) (initial : Expr) :
    (Plan.statement cfg (n + 1) (.declare span name initial)).run =
      Eval.statement cfg (n + 1) (.declare span name initial) := by
  simp only [Plan.statement, Eval.statement]
  split
  · rfl
  cases literal : Plan.directFunction? initial with
  | some parts =>
    obtain ⟨span, params, code⟩ := parts
    obtain ⟨spelled, value⟩ := direct cfg n literal
    rw [value, spelled]
    dsimp only
    split <;> rfl
  | none =>
    simp only [Plan.run_bind, rec.expr]
    cases spelled : Eval.isFunctionLiteral initial with
    | true => exact indirect literal spelled _ _
    | false => congr 1

theorem statement_succ (rec : Performed cfg n) (s : Statement) :
    (Plan.statement cfg (n + 1) s).run = Eval.statement cfg (n + 1) s := by
  cases s with
  | declare span name initial => exact rec.declare_succ span name initial
  | assign span target op value =>
    simp only [Plan.statement, Eval.statement, Plan.run_bind, rec.primary]
    congr 1
    funext c
    cases op with
    | none => rfl
    | some op =>
      dsimp only
      split
      · rfl
      · simp only [Plan.run_bind, rec.expr]
        rfl
  | branch span e yes no =>
    simp only [Plan.statement, Eval.statement, Plan.run_bind, rec.condition]
    congr 1
    funext holds
    cases holds
    · exact rec.block no
    · exact rec.block yes
  | forLoop span counter low high b =>
    simp only [Plan.statement, Eval.statement, Plan.run_bind, rec.bound, Plan.run, Plan.run_forCount,
      rec.block]
    rfl
  | whileLoop span e b =>
    simp only [Plan.statement, Eval.statement, Plan.run_whileHolds, rec.condition, rec.block]
  | print span arguments =>
    simp only [Plan.statement, Eval.statement, Plan.run_forM, Plan.run_bind, rec.expr]
    rfl
  | ret span value =>
    simp only [Plan.statement, Eval.statement]
    split
    · rfl
    · simp only [Plan.run_bind, rec.expr]
      rfl
  | brk span => rfl
  | cont span => rfl
  | block b => exact rec.block b

theorem block_succ (rec : Performed cfg n) (b : Body) :
    (Plan.block cfg (n + 1) b).run = Eval.block cfg (n + 1) b := by
  cases b with
  | missing => rfl
  | mk span ss cleared => simp only [Plan.block, Eval.block, Plan.run, Plan.run_forM, rec.statement]

theorem succ (rec : Performed cfg n)
    (tail : ∀ c t, (Plan.tail cfg (n + 1) c t).run = Eval.tail cfg (n + 1) c t) :
    Performed cfg (n + 1) where
  expr := rec.expr_succ
  operand := rec.operand_succ
  primary := rec.primary_succ
  tail := tail
  literal := rec.literal_succ
  condition := rec.condition_succ
  bound := rec.bound_succ
  statement := rec.statement_succ
  block := rec.block_succ

theorem zero : Performed cfg 0 := by
  constructor <;> intros <;> rfl

end Performed

theorem performed (cfg : Settings) : (n : Nat) → Performed cfg n
  | 0 => .zero
  | 1 => .succ .zero Performed.tail_one
  | n + 2 => .succ (performed cfg (n + 1)) ((performed cfg n).tail_succ (performed cfg (n + 1)))

/-- Performing the plan of a program is running its statements. -/
theorem Plan.run_program (cfg : Settings) (fuel : Nat) (p : Program) :
    (Plan.program cfg fuel p).run = p.body.statements.forM (Eval.statement cfg fuel) := by
  unfold Plan.program
  rw [Plan.run_forM, funext (performed cfg fuel).statement]

end CellScript
