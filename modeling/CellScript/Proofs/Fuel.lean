import CellScript.Proofs.Control

/-! The bound on nesting decides only whether a run comes to its end. A larger bound never changes
how an evaluation ends, so an evaluation that ends at all settles on one result. -/
namespace CellScript

namespace Run

variable {α β : Type}

/-- The second step ends as the first one does, unless the first one runs out of its bound. -/
def Refines (x y : Run α) : Prop := ∀ m, x m = y m ∨ ∃ m', x m = .error .exhausted m'

namespace Refines

theorem refl (x : Run α) : Refines x x := fun _ => .inl rfl

theorem exhausted (y : Run α) : Refines (throw .exhausted) y := fun m => .inr ⟨m, rfl⟩

theorem trans {x y z : Run α} (first : Refines x y) (second : Refines y z) : Refines x z := by
  intro m
  obtain same | out := first m
  · rw [same]
    exact second m
  · exact .inr out

theorem of_le {x : Nat → Run α} (each : ∀ n, Refines (x n) (x (n + 1))) {n k : Nat}
    (enough : n ≤ k) : Refines (x n) (x k) := by
  induction enough with
  | refl => exact refl _
  | step _ ih => exact ih.trans (each _)

/-- Two bounds that are large enough for a value give the same one. -/
theorem unique {x : Nat → Run α} (each : ∀ n, Refines (x n) (x (n + 1))) {n k : Nat} {m m₁ m₂ : Machine}
    {a b : α} (first : x n m = .ok a m₁) (second : x k m = .ok b m₂) : a = b ∧ m₁ = m₂ := by
  have raised {n : Nat} {a : α} {m₁ : Machine} (ended : x n m = .ok a m₁) {k : Nat} (enough : n ≤ k) :
      x k m = .ok a m₁ := by
    obtain same | ⟨m', out⟩ := of_le each enough m
    · exact same.symm.trans ended
    · rw [ended] at out
      cases out
  have both := (raised first (Nat.le_max_left n k)).symm.trans (raised second (Nat.le_max_right n k))
  cases both
  exact ⟨rfl, rfl⟩

theorem bind {x y : Run α} {f g : α → Run β} (first : Refines x y)
    (rest : ∀ a, Refines (f a) (g a)) : Refines (x >>= f) (y >>= g) := by
  intro m
  change EStateM.bind x f m = EStateM.bind y g m ∨ ∃ m', EStateM.bind x f m = _
  unfold EStateM.bind
  obtain same | ⟨m', out⟩ := first m
  · rw [← same]
    cases x m with
    | ok a m => exact rest a m
    | error stop m => exact .inl rfl
  · rw [out]
    exact .inr ⟨m', rfl⟩

theorem mapM {f g : α → Run β} (each : ∀ a, Refines (f a) (g a)) (xs : List α) :
    Refines (xs.mapM f) (xs.mapM g) := by
  induction xs with
  | nil => exact refl _
  | cons x xs ih =>
    simp only [List.mapM_cons]
    exact bind (each x) fun a => bind ih fun as => refl _

theorem forM {f g : α → Run Unit} (each : ∀ a, Refines (f a) (g a)) (xs : List α) :
    Refines (xs.forM f) (xs.forM g) := by
  induction xs with
  | nil => exact refl _
  | cons x xs ih => exact bind (each x) fun _ => ih

theorem foldlM {f g : β → α → Run β} (each : ∀ b a, Refines (f b a) (g b a)) (xs : List α)
    (b : β) : Refines (xs.foldlM f b) (xs.foldlM g b) := by
  induction xs generalizing b with
  | nil => exact refl _
  | cons x xs ih => exact bind (each b x) ih

theorem inFrame {x y : Run α} (inside : Refines x y) (owner : Owner) (bindings : Bindings) :
    Refines (inFrame owner bindings x) (inFrame owner bindings y) := by
  intro m
  unfold Run.inFrame
  obtain same | ⟨m', out⟩ := inside { m with scopes := m.scopes.openWith (some owner) bindings }
  · rw [same]
    exact .inl rfl
  · rw [out]
    dsimp only
    cases m'.scopes.close (some owner) with
    | ok scopes => exact .inr ⟨_, rfl⟩
    | error fault => exact .inr ⟨_, rfl⟩

theorem asCall {x y : Run (Option CellRef)} (inside : Refines x y) (site : Span) :
    Refines (Eval.asCall site x) (Eval.asCall site y) := by
  intro m
  rw [Eval.asCall_apply, Eval.asCall_apply]
  obtain same | ⟨m', out⟩ := inside { m with calls := m.calls + 1 }
  · rw [same]
    exact .inl rfl
  · rw [out]
    exact .inr ⟨_, rfl⟩

theorem round {x y next next' : Run Unit} (body : Refines x y) (rest : Refines next next') :
    Refines (round x next) (round y next') := by
  intro m
  unfold Run.round
  obtain same | ⟨m', out⟩ := body m
  · rw [← same]
    cases x m with
    | ok _ m => exact rest m
    | error stop m =>
      cases stop with
      | cont _ => exact rest m
      | brk _ | ret _ | fault _ | exhausted => exact .inl rfl
  · rw [out]
    exact .inr ⟨m', rfl⟩

theorem forCount {f g : Int64 → Run Unit} (each : ∀ v, Refines (f v) (g v)) (count : Nat)
    (v : Int64) : Refines (forCount f count v) (forCount g count v) := by
  induction count generalizing v with
  | zero => exact refl _
  | succ count ih => exact round (each v) (ih (v + 1))

theorem whileHolds {c d : Run Bool} {x y : Run Unit} (condition : Refines c d)
    (body : Refines x y) {rounds more : Nat} (enough : rounds ≤ more) :
    Refines (whileHolds c x rounds) (whileHolds d y more) := by
  induction rounds generalizing more with
  | zero => exact fun m => .inr ⟨m, rfl⟩
  | succ rounds ih =>
    obtain ⟨more, rfl⟩ : ∃ k, more = k + 1 := ⟨more - 1, by omega⟩
    rw [whileHolds_succ, whileHolds_succ]
    refine bind condition fun holds => ?_
    split
    · exact round body (ih (Nat.le_of_succ_le_succ enough))
    · exact refl _

end Refines

end Run

namespace Eval

open Run

/-- One more unit of nesting refines every evaluation. -/
structure Deepens (cfg : Settings) (n : Nat) : Prop where
  expr (e : Expr) : Refines (expr cfg n e) (expr cfg (n + 1) e)
  operand (x : Operand) : Refines (operand cfg n x) (operand cfg (n + 1) x)
  primary (p : Primary) : Refines (primary cfg n p) (primary cfg (n + 1) p)
  tail (c : CellRef) (t : Tail) : Refines (tail cfg n c t) (tail cfg (n + 1) c t)
  call (f : Closure) (arguments : List CellRef) (site : Span) :
    Refines (call cfg n f arguments site) (call cfg (n + 1) f arguments site)
  literal (l : Literal) : Refines (literal cfg n l) (literal cfg (n + 1) l)
  condition (construct : String) (e : Expr) :
    Refines (condition cfg n construct e) (condition cfg (n + 1) construct e)
  bound (which : String) (e : Expr) :
    Refines (bound cfg n which e) (bound cfg (n + 1) which e)
  statement (s : Statement) : Refines (statement cfg n s) (statement cfg (n + 1) s)
  block (b : Body) : Refines (block cfg n b) (block cfg (n + 1) b)

namespace Deepens

variable {cfg : Settings} {n : Nat}

theorem expr_succ (deep : Deepens cfg n) (e : Expr) :
    Refines (Eval.expr cfg (n + 1) e) (Eval.expr cfg (n + 2) e) := by
  match e with
  | .missing => exact .refl _
  | .mk span [] ops => exact .refl _
  | .mk span (x :: xs) ops =>
    simp only [Eval.expr]
    split
    · exact .refl _
    split
    · exact deep.operand x
    · refine .bind (deep.operand x) fun c => .bind (.refl _) fun first => .bind ?_ fun _ => .refl _
      exact .mapM (fun x => .bind (deep.operand x) fun _ => .refl _) xs

theorem operand_succ (deep : Deepens cfg n) (x : Operand) :
    Refines (Eval.operand cfg (n + 1) x) (Eval.operand cfg (n + 2) x) := by
  obtain ⟨span, op, p, test⟩ := x
  simp only [Eval.operand]
  exact .bind (deep.primary p) fun _ => .refl _

theorem primary_succ (deep : Deepens cfg n) (p : Primary) :
    Refines (Eval.primary cfg (n + 1) p) (Eval.primary cfg (n + 2) p) := by
  cases p with
  | read span kind => exact .refl _
  | literal span l => exact deep.literal l
  | paren span inner => exact deep.expr inner
  | ref span name tails =>
    simp only [Eval.primary]
    exact .bind (.refl _) fun c => .foldlM deep.tail tails c

theorem tail_succ (deep : Deepens cfg n) (c : CellRef) (t : Tail) :
    Refines (Eval.tail cfg (n + 1) c t) (Eval.tail cfg (n + 2) c t) := by
  simp only [Eval.tail]
  refine .bind (.refl _) fun v => ?_
  cases t with
  | index span position => exact .refl _
  | field span name => exact .refl _
  | subscript span key => exact .bind (deep.expr key) fun _ => .refl _
  | call span arguments =>
    cases v with
    | func f => exact .bind (.mapM deep.expr arguments) fun as => deep.call f as span
    | _ => exact .refl _

theorem call_succ (deep : Deepens cfg n) (f : Closure) (arguments : List CellRef) (site : Span) :
    Refines (Eval.call cfg (n + 1) f arguments site) (Eval.call cfg (n + 2) f arguments site) := by
  simp only [Eval.call]
  split
  · exact .refl _
  refine .bind (.refl _) fun m => ?_
  split
  · exact .refl _
  refine .asCall (.inFrame ?_ _ _) _
  cases f.code with
  | expression e => exact .bind (deep.expr e) fun _ => .refl _
  | statements b => exact .bind (.forM deep.statement _) fun _ => .refl _

theorem literal_succ (deep : Deepens cfg n) (l : Literal) :
    Refines (Eval.literal cfg (n + 1) l) (Eval.literal cfg (n + 2) l) := by
  cases l with
  | array span es =>
    simp only [Eval.literal]
    exact .bind (.mapM deep.expr es) fun _ => .refl _
  | tuple span es =>
    simp only [Eval.literal]
    refine .bind (.mapM ?_ es) fun _ => .refl _
    rintro ⟨_, name, value⟩
    exact .bind (deep.expr value) fun _ => .refl _
  | _ => exact .refl _

theorem statement_succ (deep : Deepens cfg n) (s : Statement) :
    Refines (Eval.statement cfg (n + 1) s) (Eval.statement cfg (n + 2) s) := by
  cases s with
  | declare span name initial =>
    simp only [Eval.statement]
    split
    · exact .refl _
    · exact .bind (deep.expr initial) fun _ => .refl _
  | assign span target op value =>
    simp only [Eval.statement]
    refine .bind (deep.primary target) fun c => ?_
    cases op with
    | none => exact .refl _
    | some op =>
      dsimp only
      split
      · exact .refl _
      · exact .bind (deep.expr value) fun _ => .refl _
  | branch span e yes no =>
    simp only [Eval.statement]
    refine .bind (deep.condition "if" e) fun holds => ?_
    split
    · exact deep.block yes
    · exact deep.block no
  | forLoop span counter low high b =>
    simp only [Eval.statement]
    refine .bind (deep.bound "lower" low) fun low => .bind (deep.bound "upper" high) fun high => ?_
    refine .inFrame (.forCount (fun v => ?_) _ _) _ _
    exact .bind (.refl _) fun _ => .bind (.refl _) fun _ => deep.block b
  | whileLoop span e b =>
    simp only [Eval.statement]
    exact .whileHolds (deep.condition "while" e) (deep.block b) (Nat.le_succ n)
  | print span arguments =>
    simp only [Eval.statement]
    exact .forM (fun e => .bind (deep.expr e) fun _ => .refl _) arguments
  | ret span value =>
    simp only [Eval.statement]
    split
    · exact .refl _
    · exact .bind (deep.expr value) fun _ => .refl _
  | brk span => exact .refl _
  | cont span => exact .refl _
  | block b => exact deep.block b

theorem block_succ (deep : Deepens cfg n) (b : Body) :
    Refines (Eval.block cfg (n + 1) b) (Eval.block cfg (n + 2) b) := by
  cases b with
  | missing => exact .refl _
  | mk span ss cleared =>
    simp only [Eval.block]
    exact .inFrame (.forM deep.statement ss) _ _

end Deepens

theorem deepens (cfg : Settings) (n : Nat) : Deepens cfg n := by
  induction n with
  | zero => constructor <;> intros <;> exact .exhausted _
  | succ n deep =>
    exact {
      expr := deep.expr_succ
      operand := deep.operand_succ
      primary := deep.primary_succ
      tail := deep.tail_succ
      call := deep.call_succ
      literal := deep.literal_succ
      condition := fun construct e => by
        simp only [condition]
        exact .bind (deep.expr e) fun _ => .refl _
      bound := fun which e => by
        simp only [bound]
        exact .bind (deep.expr e) fun _ => .refl _
      statement := deep.statement_succ
      block := deep.block_succ }

/-- The run of a program ends so under some bound. -/
def Ends (cfg : Settings) (p : Program) (m : Machine) (o : Outcome) (m' : Machine) : Prop :=
  o ≠ .exhausted ∧ ∃ fuel, program cfg fuel p m = (o, m')

theorem statements_refines (cfg : Settings) (ss : List Statement) {n k : Nat} (enough : n ≤ k) :
    Refines (ss.forM (statement cfg n)) (ss.forM (statement cfg k)) :=
  .of_le (x := fun n => ss.forM (statement cfg n)) (fun n => .forM (deepens cfg n).statement ss)
    enough

/-- A larger bound gives the same end. -/
theorem program_of_le {cfg : Settings} {p : Program} {m m' : Machine} {o : Outcome} {n k : Nat}
    (ends : o ≠ .exhausted) (ran : program cfg n p m = (o, m')) (enough : n ≤ k) :
    program cfg k p m = (o, m') := by
  unfold program at ran ⊢
  obtain same | ⟨m₁, out⟩ := statements_refines cfg p.body.statements enough m
  · rw [← same]
    exact ran
  · rw [out] at ran
    have left : o = .exhausted := (congrArg Prod.fst ran).symm
    exact absurd left ends

/-- A program ends in one way only. -/
theorem Ends.unique {cfg : Settings} {p : Program} {m m₁ m₂ : Machine} {o₁ o₂ : Outcome}
    (first : Ends cfg p m o₁ m₁) (second : Ends cfg p m o₂ m₂) : o₁ = o₂ ∧ m₁ = m₂ := by
  obtain ⟨ends₁, n, ran₁⟩ := first
  obtain ⟨ends₂, k, ran₂⟩ := second
  have top₁ := program_of_le ends₁ ran₁ (Nat.le_max_left n k)
  have top₂ := program_of_le ends₂ ran₂ (Nat.le_max_right n k)
  exact Prod.ext_iff.mp (top₁.symm.trans top₂)

end Eval

end CellScript
