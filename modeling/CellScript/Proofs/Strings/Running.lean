import CellScript.Proofs.Strings.Holding

/-! Runs without string input. While sealed code runs, all values in cells stay sealed: at every point of the
run, and also where a bound cuts it off. -/
namespace CellScript

namespace Plan

/-- The plan keeps all values in cells sealed. -/
abbrev Seals {α : Type} (x : Plan α) : Prop := Keeps (Heap.All Value.Sealed) (fun _ => True) x

variable {α : Type}

namespace Keeps

theorem sealed_act {a : Act α} (sealed : a.Sealed) : Seals (.act a) :=
  .act fun _ all => .of_heap (a.keeps_sealed sealed all)

theorem contents (c : CellRef) : Keeps (Heap.All Value.Sealed) Value.Sealed (.act (.contents c)) :=
  .act fun _ all => .ok (all.get .usual c) all

end Keeps

theorem sealed_of_directFunction {e : Expr} {span : Span} {params : List Text} {code : Code}
    (direct : directFunction? e = some (span, params, code)) (sealed : Sealed (Subtree.ofExpr e)) :
    code.Sealed := by
  unfold directFunction? at direct
  split at direct
  · cases direct
    exact Sealed.body_iff.mp sealed.parts.parts.parts.parts
  · cases direct
    exact sealed.parts.parts.parts.parts
  · cases direct

/-- Under a bound of `n`, sealed parts keep all values in cells sealed. -/
structure Sealing (cfg : Settings) (n : Nat) : Prop where
  expr {e : Expr} (sealed : Sealed (Subtree.ofExpr e)) : Seals (Plan.expr cfg n e)
  operand {x : Operand} (sealed : Sealed [.operand x]) : Seals (Plan.operand cfg n x)
  primary {p : Primary} (sealed : Sealed [.primary p]) : Seals (Plan.primary cfg n p)
  tail (c : CellRef) {t : Tail} (sealed : Sealed [.tail t]) : Seals (Plan.tail cfg n c t)
  literal {l : Literal} (sealed : Sealed [.literal l]) : Seals (Plan.literal cfg n l)
  condition (construct : String) {e : Expr} (sealed : Sealed (Subtree.ofExpr e)) :
    Seals (Plan.condition cfg n construct e)
  bound (which : String) {e : Expr} (sealed : Sealed (Subtree.ofExpr e)) : Seals (Plan.bound cfg n which e)
  statement {s : Statement} (sealed : Sealed [.statement s]) : Seals (Plan.statement cfg n s)
  block {b : Body} (sealed : Sealed (Subtree.ofBody b)) : Seals (Plan.block cfg n b)

namespace Sealing

variable {cfg : Settings} {n : Nat}

theorem zero : Sealing cfg 0 := by
  constructor <;> intros <;> exact .stop _

theorem statements (rec : Sealing cfg n) {ss : List Statement} (sealed : Sealed (ss.map .statement)) :
    Seals (ss.forM (Plan.statement cfg n)) :=
  .forM fun _ member => rec.statement (sealed.mapped member)

theorem expressions (rec : Sealing cfg n) {es : List Expr} (sealed : Sealed (es.flatMap Subtree.ofExpr)) :
    Seals (es.mapM' (Plan.expr cfg n)) :=
  .weaken (.mapM' fun _ member => rec.expr (sealed.flatMapped member)) fun _ _ => trivial

theorem code (rec : Sealing cfg n) {f : Closure} (sealed : f.code.Sealed) :
    Seals (Plan.code (Plan.expr cfg n) (Plan.statement cfg n) f) := by
  unfold Plan.code
  split
  next e same =>
    rw [same] at sealed
    exact .bind (rec.expr sealed) fun _ _ => .pure trivial
  next b same =>
    rw [same] at sealed
    exact .bind (rec.statements sealed) fun _ _ => .pure trivial

theorem expr_succ (rec : Sealing cfg n) {e : Expr} (sealed : Sealed (Subtree.ofExpr e)) :
    Seals (Plan.expr cfg (n + 1) e) := by
  cases e with
  | missing => exact .fail _ _
  | mk span xs ops =>
    have operands : Sealed (xs.map .operand) := sealed.parts
    cases xs with
    | nil => exact .fail _ _
    | cons x xs =>
      simp only [Plan.expr]
      split
      · exact .fail _ _
      · split
        next y ys op ops fits =>
          refine .bind (rec.operand operands.head) fun c _ => .bind (.contents c) fun first start => ?_
          refine .bind (rec.operand operands.tail.head) fun d _ => .bind (.contents d) fun second next => ?_
          have later : ∀ x ∈ ys, Keeps (Heap.All Value.Sealed) Value.Sealed
              (do .act (.contents (← Plan.operand cfg n x))) :=
            fun x member => .bind (rec.operand (operands.tail.tail.mapped member)) fun c _ => .contents c
          refine .bind (.mapM' later) fun rest others => .sealed_act (a := .reduce ..) ⟨start, next, ?_⟩
          rintro ⟨op, v⟩ member
          exact others v (List.of_mem_zip member).2
        next => exact rec.operand operands.head

theorem operand_succ (rec : Sealing cfg n) {x : Operand} (sealed : Sealed [.operand x]) :
    Seals (Plan.operand cfg (n + 1) x) := by
  obtain ⟨span, op, p, test⟩ := x
  simp only [Plan.operand]
  refine .bind (rec.primary sealed.parts) fun c _ => ?_
  split
  · exact .bind (.contents c) fun v _ => .sealed_act (a := .operand ..) trivial
  · exact .pure trivial

theorem primary_succ (rec : Sealing cfg n) {p : Primary} (sealed : Sealed [.primary p]) :
    Seals (Plan.primary cfg (n + 1) p) := by
  match p with
  | .read span (.other w unknown) => exact .fail _ _
  | .read span (.known .string) => exact absurd rfl (sealed.here.2 span)
  | .read span (.known .int) =>
    refine .read fun w m all => ?_
    dsimp only [Run.understand]
    cases Integer.read w with
    | ok k => exact .ok trivial (all.newCell (v := .int k) trivial)
    | error failure => exact .error all
  | .read span (.known .real) =>
    refine .read fun w m all => ?_
    dsimp only [Run.understand]
    cases Real.read? w with
    | some x => exact .ok trivial (all.newCell (v := .real x) trivial)
    | none => exact .error all
  | .literal span l => exact rec.literal sealed.parts
  | .paren span inner => exact rec.expr sealed.parts
  | .ref span name tails =>
    refine .bind (.sealed_act (a := .lookup ..) trivial) fun c _ => .foldlM (fun c _ t member => ?_) trivial
    exact rec.tail c (Sealed.mapped sealed.parts member)

theorem tail_succ (rec : Sealing cfg n) (below : ∀ k, n = k + 1 → Sealing cfg k) (c : CellRef) {t : Tail}
    (sealed : Sealed [.tail t]) : Seals (Plan.tail cfg (n + 1) c t) := by
  cases t with
  | index span position => exact .bind (.contents c) fun v _ => .sealed_act (a := .itemAt ..) trivial
  | field span name => exact .bind (.contents c) fun v _ => .sealed_act (a := .itemNamed ..) trivial
  | subscript span key =>
    refine .bind (.contents c) fun v _ => .bind (rec.expr sealed.parts) fun k _ => ?_
    exact .sealed_act (a := .itemUnder ..) trivial
  | call span arguments =>
    match n with
    | 0 =>
      refine .bind (.contents c) fun v _ => ?_
      cases v with
      | func f => exact .stop _
      | _ => exact .fail _ _
    | n + 1 =>
      refine .call (fun h all => all.newCell (v := .empty) trivial) (rec.expressions sealed.parts)
        fun h f all held => (below n rfl).code (f := f) ?_
      have code : (h.get c).Sealed := all.get .usual c
      rwa [held] at code

theorem literal_succ (rec : Sealing cfg n) {l : Literal} (sealed : Sealed [.literal l]) :
    Seals (Plan.literal cfg (n + 1) l) := by
  cases l with
  | missing => exact .fail _ _
  | string span t => exact .sealed_act (a := .scalar (.string t) rfl) sealed.here.1
  | integer span k => exact .sealed_act (a := .scalar (.int k) rfl) trivial
  | real span x => exact .sealed_act (a := .scalar (.real x) rfl) trivial
  | boolean span b => exact .sealed_act (a := .scalar (.bool b) rfl) trivial
  | empty span => exact .sealed_act (a := .scalar .empty rfl) trivial
  | array span es =>
    exact .bind (rec.expressions sealed.parts) fun cells _ => .sealed_act (a := .array cells) trivial
  | tuple span es =>
    refine .bind (.mapM' (P := fun _ => True) fun e member => ?_) fun fields _ =>
      .sealed_act (a := .tuple span fields) trivial
    have inside := (Sealed.mapped sealed.parts member).parts
    obtain ⟨_, name, value⟩ := e
    exact .bind (rec.expr inside) fun c _ => .pure trivial
  | function span params b =>
    exact .sealed_act (a := .function span params (.statements b)) (Sealed.body_iff.mp sealed.parts)
  | lambda span params result =>
    exact .sealed_act (a := .function span params (.expression result)) sealed.parts

theorem condition_succ (rec : Sealing cfg n) (construct : String) {e : Expr}
    (sealed : Sealed (Subtree.ofExpr e)) : Seals (Plan.condition cfg (n + 1) construct e) := by
  refine .bind (rec.expr sealed) fun c _ => .bind (.contents c) fun v _ => ?_
  cases v with
  | bool b => exact .pure trivial
  | _ => exact .fail _ _

theorem bound_succ (rec : Sealing cfg n) (which : String) {e : Expr} (sealed : Sealed (Subtree.ofExpr e)) :
    Seals (Plan.bound cfg (n + 1) which e) := by
  refine .bind (rec.expr sealed) fun c _ => .bind (.contents c) fun v _ => ?_
  cases v with
  | int k => exact .pure trivial
  | _ => exact .fail _ _

theorem statement_succ (rec : Sealing cfg n) {s : Statement} (sealed : Sealed [.statement s]) :
    Seals (Plan.statement cfg (n + 1) s) := by
  have parts := sealed.parts
  cases s with
  | declare span name initial =>
    simp only [Plan.statement]
    split
    · exact .bind (.sealed_act (a := .scalar .empty rfl) trivial) fun c _ =>
        .sealed_act (a := .bind name c) trivial
    split
    next direct =>
      split
      · exact .stop _
      · exact .sealed_act (a := .declareFunction ..) (sealed_of_directFunction direct parts)
    next => exact .bind (rec.expr parts) fun c _ => .sealed_act (a := .bind name c) trivial
  | assign span target op value =>
    refine .bind (rec.primary (Sealed.head parts)) fun c _ => ?_
    cases op with
    | none => exact .pure trivial
    | some op =>
      dsimp only
      split
      · exact .pure trivial
      · exact .bind (rec.expr (Sealed.tail parts)) fun d _ => .sealed_act (a := .assign ..) trivial
  | branch span e yes no =>
    refine .bind (rec.condition _ (Sealed.left (Sealed.left parts))) fun holds _ => ?_
    cases holds with
    | true => exact rec.block (Sealed.right (Sealed.left parts))
    | false => exact rec.block (Sealed.right parts)
  | forLoop span counter low high b =>
    refine .bind (rec.bound _ (Sealed.left (Sealed.left parts))) fun low _ => ?_
    refine .bind (rec.bound _ (Sealed.right (Sealed.left parts))) fun high _ => ?_
    refine .frame _ (.forCount (fun v => ?_) _ _)
    refine .bind (.sealed_act (a := .scalar (.int v) rfl) trivial) fun c _ => ?_
    exact .bind (.sealed_act (a := .bind counter c) trivial) fun _ _ => rec.block (Sealed.right parts)
  | whileLoop span e b =>
    exact .whileHolds (rec.condition _ (Sealed.left parts)) (rec.block (Sealed.right parts)) n
  | print span es =>
    refine .forM fun e member => .bind (rec.expr (Sealed.flatMapped parts member)) fun c _ => ?_
    exact .bind (.contents c) fun v _ => .sealed_act (a := .print span v) trivial
  | ret span value =>
    simp only [Plan.statement]
    split
    · exact .bind (.sealed_act (a := .scalar .empty rfl) trivial) fun c _ => .stop _
    · exact .bind (rec.expr parts) fun c _ => .stop _
  | brk | cont => exact .stop _
  | block b => exact rec.block (Sealed.body_iff.mpr parts)

theorem block_succ (rec : Sealing cfg n) {b : Body} (sealed : Sealed (Subtree.ofBody b)) :
    Seals (Plan.block cfg (n + 1) b) := by
  cases b with
  | missing => exact .pure trivial
  | mk span ss tokens => exact .frame _ (rec.statements sealed.parts)

theorem succ (rec : Sealing cfg n) (below : ∀ k, n = k + 1 → Sealing cfg k) : Sealing cfg (n + 1) where
  expr := rec.expr_succ
  operand := rec.operand_succ
  primary := rec.primary_succ
  tail := rec.tail_succ below
  literal := rec.literal_succ
  condition := rec.condition_succ
  bound := rec.bound_succ
  statement := rec.statement_succ
  block := rec.block_succ

end Sealing

/-- Sealed code keeps all values in cells sealed. The code of a function is two bounds below its call. -/
theorem sealing (cfg : Settings) : ∀ n, Sealing cfg n
  | 0 => .zero
  | 1 => Sealing.zero.succ nofun
  | n + 2 => (sealing cfg (n + 1)).succ fun _ same => Nat.succ.inj same ▸ sealing cfg n

end Plan

end CellScript
