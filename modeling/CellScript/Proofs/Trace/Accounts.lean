import CellScript.Proofs.Trace

/-! The traced evaluation is the plain one with a record: both run alike, and no fault comes out of
a run that did not come up at a moment of the record. -/
namespace CellScript

open Run

variable {α β : Type}

namespace RuntimeError

theorem leaveCall_fault (e : RuntimeError) (site : Span) : (e.leaveCall site).fault = e.fault := by
  unfold leaveCall
  split <;> rfl

theorem leaveCall_span (e : RuntimeError) (site : Span) : (e.leaveCall site).span = e.span := by
  unfold leaveCall
  split <;> rfl

end RuntimeError

/-- A fault comes up with this place. -/
def Moment.Raises (moment : Moment) (fault : Fault) (span : Span) : Prop :=
  ∃ node e m, moment.event = .raised node e m ∧ e.fault = fault ∧ e.span = span

/-- A step that ends without a fault. -/
def Run.Calm (x : Run α) : Prop := ∀ m e m', x m ≠ .error (.fault e) m'

/-- The traced step runs like the plain one and accounts for its faults. -/
structure Accounts (t : Traced α) (x : Run α) : Prop where
  run_eq : t.run = x
  raised : ∀ m e m', x m = .error (.fault e) m' →
    ∃ moment ∈ t.moments m, moment.Raises e.fault e.span

namespace Run.Calm

theorem of_ok {x : Run α} (ends : ∀ m, ∃ a m', x m = .ok a m') : Calm x := by
  intro m e m' failed
  obtain ⟨a, m₁, ended⟩ := ends m
  rw [ended] at failed
  cases failed

theorem pure (a : α) : Calm (Pure.pure a : Run α) := of_ok fun _ => ⟨_, _, rfl⟩

theorem get : Calm (get : Run Machine) := of_ok fun _ => ⟨_, _, rfl⟩

theorem contents (c : CellRef) : Calm (contents c) := of_ok fun _ => ⟨_, _, rfl⟩

theorem newCell (v : Value) : Calm (newCell v) := of_ok fun _ => ⟨_, _, rfl⟩

theorem newArray (cs : List CellRef) : Calm (newArray cs) := of_ok fun _ => ⟨_, _, rfl⟩

theorem bindName (name : Text) (c : CellRef) : Calm (bindName name c) := of_ok fun _ => ⟨_, _, rfl⟩

theorem throw {stop : Stop} (signal : ∀ e, stop ≠ .fault e) : Calm (throw stop : Run α) := by
  intro m e m' failed
  have stops : stop = .fault e := (EStateM.Result.error.inj failed).1
  exact signal e stops

theorem bind {x : Run α} {f : α → Run β} (first : Calm x) (rest : ∀ a, Calm (f a)) :
    Calm (x >>= f) := by
  intro m e m'
  change EStateM.bind x f m ≠ _
  unfold EStateM.bind
  have calm := first m
  generalize x m = ended at calm
  cases ended with
  | ok a m => exact rest a m e m'
  | error stop m =>
    intro failed
    cases failed
    exact calm e m' rfl

theorem knowItself (name : Text) (c : CellRef) : Calm (Eval.knowItself name c) := by
  refine bind (contents c) fun v => ?_
  cases v with
  | func f => exact of_ok fun _ => ⟨_, _, rfl⟩
  | _ => exact pure ()

theorem closure (span : Span) (params : List Text) (code : Code) :
    Calm (Eval.closure span params code) :=
  bind get fun _ => newCell _

end Run.Calm

namespace Accounts

open Traced

theorem own (active : List Activation) (node : TreeNode) (x : Run α) :
    Accounts (own active node x) x where
  run_eq := rfl
  raised := by
    intro m e m' failed
    refine ⟨⟨active, .raised node e m'⟩, ?_, node, e, m', rfl, rfl, rfl⟩
    simp only [Traced.own, failed, faults, List.mem_singleton]

theorem quiet {x : Run α} (calm : x.Calm) : Accounts (quiet x) x where
  run_eq := rfl
  raised := fun m e m' failed => absurd failed (calm m e m')

theorem pure (a : α) : Accounts (Pure.pure a) (Pure.pure a) := quiet (.pure a)

theorem exhausted : Accounts (Traced.quiet (throw .exhausted) : Traced α) (throw .exhausted) :=
  quiet (.throw fun _ same => Stop.noConfusion same)

theorem bind {t : Traced α} {x : Run α} {g : α → Traced β} {f : α → Run β} (first : Accounts t x)
    (rest : ∀ a, Accounts (g a) (f a)) : Accounts (t >>= g) (x >>= f) where
  run_eq := by
    change t.run >>= (fun a => (g a).run) = x >>= f
    rw [first.run_eq, funext fun a => (rest a).run_eq]
  raised := by
    intro m e m' failed
    change EStateM.bind x f m = _ at failed
    change ∃ moment ∈ t.moments m ++ following (t.run m) fun a m => (g a).moments m, _
    rw [first.run_eq]
    unfold EStateM.bind at failed
    cases ended : x m with
    | ok a m₁ =>
      rw [ended] at failed
      obtain ⟨moment, inside, raises⟩ := (rest a).raised m₁ e m' failed
      exact ⟨moment, List.mem_append_right _ inside, raises⟩
    | error stop m₁ =>
      rw [ended] at failed
      cases failed
      obtain ⟨moment, inside, raises⟩ := first.raised m e m' ended
      exact ⟨moment, List.mem_append_left _ inside, raises⟩

theorem mapM {g : α → Traced β} {f : α → Run β} (each : ∀ a, Accounts (g a) (f a)) (xs : List α) :
    Accounts (xs.mapM' g) (xs.mapM f) := by
  induction xs with
  | nil => exact pure []
  | cons a xs ih =>
    rw [List.mapM_cons]
    exact bind (each a) fun b => bind ih fun bs => pure (b :: bs)

theorem forM {g : α → Traced Unit} {f : α → Run Unit} (each : ∀ a, Accounts (g a) (f a))
    (xs : List α) : Accounts (xs.forM g) (xs.forM f) := by
  induction xs with
  | nil => exact pure ()
  | cons a xs ih => exact bind (each a) fun _ => ih

theorem foldlM {g : β → α → Traced β} {f : β → α → Run β} (each : ∀ b a, Accounts (g b a) (f b a))
    (xs : List α) (b : β) : Accounts (xs.foldlM g b) (xs.foldlM f b) := by
  induction xs generalizing b with
  | nil => exact pure b
  | cons a xs ih => exact bind (each b a) ih

theorem during {t : Traced α} {x : Run α} (inside : Accounts t x) (active : List Activation)
    (node : TreeNode) : Accounts (during active node t) x where
  run_eq := inside.run_eq
  raised := by
    intro m e m' failed
    obtain ⟨moment, member, raises⟩ := inside.raised m e m' failed
    refine ⟨moment, ?_, raises⟩
    exact List.mem_cons_of_mem _ (List.mem_append_left _ member)

theorem inFrame {t : Traced α} {x : Run α} (inside : Accounts t x) (active : List Activation)
    (node : TreeNode) (owner : Owner) (bindings : Bindings) :
    Accounts (inFrame active node owner bindings t) (Run.inFrame owner bindings x) where
  run_eq := congrArg (Run.inFrame owner bindings) inside.run_eq
  raised := by
    intro m e m' failed
    simp only [Traced.inFrame, inside.run_eq]
    unfold Run.inFrame at failed
    have accounted := inside.raised { m with scopes := m.scopes.openWith (some owner) bindings }
    cases ended : x { m with scopes := m.scopes.openWith (some owner) bindings } with
    | ok a m₁ =>
      rw [ended] at failed
      dsimp only at failed
      cases closed : m₁.scopes.close (some owner) with
      | ok scopes =>
        rw [closed] at failed
        cases failed
      | error fault =>
        rw [closed] at failed
        cases failed
        refine ⟨⟨active, .raised node _ m'⟩, List.mem_append_right _ ?_, node, _, m', rfl, rfl, rfl⟩
        simp only [following, closed]
        exact List.mem_singleton.mpr rfl
    | error stop m₁ =>
      have same : stop = .fault e := by
        rw [ended] at failed
        dsimp only at failed
        split at failed <;> exact (EStateM.Result.error.inj failed).1
      obtain ⟨moment, member, raises⟩ := accounted e m₁ (by rw [ended, same])
      exact ⟨moment, List.mem_append_left _ (List.mem_append_left _ member), raises⟩

theorem asCall {t : Traced (Option CellRef)} {x : Run (Option CellRef)} (inside : Accounts t x)
    (active : List Activation) (node : TreeNode) (site : Span) :
    Accounts (asCall active node site t) (Eval.asCall site x) where
  run_eq := congrArg (Eval.asCall site) inside.run_eq
  raised := by
    intro m e m' failed
    simp only [Traced.asCall, inside.run_eq]
    rw [Eval.asCall_apply] at failed
    have accounted := inside.raised { m with calls := m.calls + 1 }
    cases ended : x { m with calls := m.calls + 1 } with
    | ok result m₁ =>
      rw [ended] at failed
      cases result <;> cases failed
    | error stop m₁ =>
      rw [ended] at failed
      cases stop with
      | ret c => cases failed
      | exhausted => cases failed
      | brk span =>
        cases failed
        exact ⟨_, List.mem_append_right _ (List.mem_singleton.mpr rfl), node, _, m₁, rfl, rfl, rfl⟩
      | cont span =>
        cases failed
        exact ⟨_, List.mem_append_right _ (List.mem_singleton.mpr rfl), node, _, m₁, rfl, rfl, rfl⟩
      | fault e₁ =>
        cases failed
        obtain ⟨moment, member, raises⟩ := accounted e₁ m₁ ended
        rw [e₁.leaveCall_fault, e₁.leaveCall_span]
        exact ⟨moment, List.mem_append_left _ member, raises⟩

theorem round {t next : Traced Unit} {x rest : Run Unit} (body : Accounts t x)
    (after : Accounts next rest) : Accounts (round t next) (Run.round x rest) where
  run_eq := by
    change Run.round t.run next.run = _
    rw [body.run_eq, after.run_eq]
  raised := by
    intro m e m' failed
    simp only [Traced.round, body.run_eq]
    unfold Run.round at failed
    cases ended : x m with
    | ok _ m₁ =>
      rw [ended] at failed
      obtain ⟨moment, member, raises⟩ := after.raised m₁ e m' failed
      exact ⟨moment, List.mem_append_right _ member, raises⟩
    | error stop m₁ =>
      rw [ended] at failed
      cases stop with
      | cont span =>
        obtain ⟨moment, member, raises⟩ := after.raised m₁ e m' failed
        exact ⟨moment, List.mem_append_right _ member, raises⟩
      | brk span | ret c | exhausted => cases failed
      | fault e₁ =>
        cases failed
        obtain ⟨moment, member, raises⟩ := body.raised m e m' ended
        exact ⟨moment, List.mem_append_left _ member, raises⟩

theorem forCount {g : Int64 → Traced Unit} {f : Int64 → Run Unit}
    (each : ∀ v, Accounts (g v) (f v)) (count : Nat) (v : Int64) :
    Accounts (forCount g count v) (Run.forCount f count v) := by
  induction count generalizing v with
  | zero => exact pure ()
  | succ count ih => exact round (each v) (ih (v + 1))

theorem whileHolds {c : Traced Bool} {d : Run Bool} {t : Traced Unit} {x : Run Unit}
    (condition : Accounts c d) (body : Accounts t x) (rounds : Nat) :
    Accounts (whileHolds c t rounds) (Run.whileHolds d x rounds) := by
  induction rounds with
  | zero => exact exhausted
  | succ rounds ih =>
    rw [whileHolds_succ]
    refine bind condition fun holds => ?_
    split
    · exact round body ih
    · exact pure ()

end Accounts

namespace Trace

/-- Under a bound of `n`, the traced evaluation accounts for the plain one. -/
structure Recorded (cfg : Settings) (n : Nat) : Prop where
  expr (active : List Activation) (e : Expr) :
    Accounts (expr cfg n active e) (Eval.expr cfg n e)
  operand (active : List Activation) (x : Operand) :
    Accounts (operand cfg n active x) (Eval.operand cfg n x)
  primary (active : List Activation) (p : Primary) :
    Accounts (primary cfg n active p) (Eval.primary cfg n p)
  tail (active : List Activation) (c : CellRef) (t : Tail) :
    Accounts (tail cfg n active c t) (Eval.tail cfg n c t)
  call (active : List Activation) (f : Closure) (arguments : List CellRef) (site : Span) :
    Accounts (call cfg n active f arguments site) (Eval.call cfg n f arguments site)
  literal (active : List Activation) (l : Literal) :
    Accounts (literal cfg n active l) (Eval.literal cfg n l)
  condition (active : List Activation) (node : TreeNode) (construct : String) (e : Expr) :
    Accounts (condition cfg n active node construct e) (Eval.condition cfg n construct e)
  bound (active : List Activation) (node : TreeNode) (which : String) (e : Expr) :
    Accounts (bound cfg n active node which e) (Eval.bound cfg n which e)
  statement (active : List Activation) (s : Statement) :
    Accounts (statement cfg n active s) (Eval.statement cfg n s)
  block (active : List Activation) (b : Body) :
    Accounts (block cfg n active b) (Eval.block cfg n b)

namespace Recorded

variable {cfg : Settings} {n : Nat}

theorem sequence (rec : Recorded cfg n) (active : List Activation) (ss : List Statement) :
    Accounts (sequence active (Trace.statement cfg n active) ss)
      (ss.forM (Eval.statement cfg n)) :=
  .during (.forM (rec.statement active) ss) _ _

theorem code (rec : Recorded cfg n) (active : List Activation) (code : Code) :
    Accounts (match code with
      | .expression e => do return some (← Trace.expr cfg n active e)
      | .statements b => do
        Trace.sequence active (Trace.statement cfg n active) b.statements
        return none)
      (match code with
      | .expression e => do return some (← Eval.expr cfg n e)
      | .statements b => do
        b.statements.forM (Eval.statement cfg n)
        return none) := by
  cases code with
  | expression e => exact .bind (rec.expr _ e) fun c => .pure (some c)
  | statements b => exact .bind (rec.sequence _ b.statements) fun _ => .pure none

theorem rounds (rec : Recorded cfg n) (active : List Activation) (counter : Text) (b : Body)
    (count : Nat) (v : Int64) :
    Accounts (Traced.forCount (fun v => do
        let c ← Traced.quiet (newCell (.int v))
        Traced.quiet (bindName counter c)
        Trace.block cfg n active b) count v)
      (Run.forCount (fun v => do
        bindName counter (← newCell (.int v))
        Eval.block cfg n b) count v) := by
  refine .forCount (fun v => ?_) count v
  refine .bind (.quiet (.newCell _)) fun c => .bind (.quiet (.bindName counter c)) fun _ => ?_
  exact rec.block active b

theorem expr_succ (rec : Recorded cfg n) (active : List Activation) (e : Expr) :
    Accounts (Trace.expr cfg (n + 1) active e) (Eval.expr cfg (n + 1) e) := by
  match e with
  | .missing => exact .during (.own _ _ _) _ _
  | .mk span [] ops => exact .during (.own _ _ _) _ _
  | .mk span (x :: xs) ops =>
    simp only [Trace.expr, Eval.expr]
    apply Accounts.during
    split
    · exact .own _ _ _
    split
    · exact rec.operand active x
    refine .bind (rec.operand active x) fun c => .bind (.quiet (.contents c)) fun first => ?_
    refine .bind (.mapM (fun x => ?_) xs) fun rest => ?_
    · exact .bind (rec.operand active x) fun c => .quiet (.contents c)
    · exact .bind (.own _ _ _) fun v => .quiet (.newCell v)

theorem operand_succ (rec : Recorded cfg n) (active : List Activation) (x : Operand) :
    Accounts (Trace.operand cfg (n + 1) active x) (Eval.operand cfg (n + 1) x) := by
  obtain ⟨span, op, p, test⟩ := x
  simp only [Trace.operand, Eval.operand]
  refine .during (.bind (rec.primary active p) fun c => ?_) _ _
  split
  · exact .pure c
  · refine .bind (.quiet (.contents c)) fun v => ?_
    exact .bind (.own _ _ _) fun v => .quiet (.newCell v)

theorem primary_succ (rec : Recorded cfg n) (active : List Activation) (p : Primary) :
    Accounts (Trace.primary cfg (n + 1) active p) (Eval.primary cfg (n + 1) p) := by
  cases p with
  | read span kind => exact .during (.bind (.own _ _ _) fun v => .quiet (.newCell v)) _ _
  | literal span l => exact .during (rec.literal active l) _ _
  | paren span inner => exact .during (rec.expr active inner) _ _
  | ref span name tails =>
    simp only [Trace.primary, Eval.primary]
    exact .during (.bind (.own _ _ _) fun c => .foldlM (rec.tail active) tails c) _ _

theorem tail_succ (rec : Recorded cfg n) (active : List Activation) (c : CellRef) (t : Tail) :
    Accounts (Trace.tail cfg (n + 1) active c t) (Eval.tail cfg (n + 1) c t) := by
  simp only [Trace.tail, Eval.tail]
  refine .during (.bind (.quiet (.contents c)) fun v => ?_) _ _
  cases t with
  | index span position => exact .own _ _ _
  | field span name => exact .own _ _ _
  | subscript span key => exact .bind (rec.expr active key) fun k => .own _ _ _
  | call span arguments =>
    cases v with
    | func f =>
      exact .bind (.mapM (rec.expr active) arguments) fun cells => rec.call active f cells span
    | _ => exact .own _ _ _

theorem call_succ (rec : Recorded cfg n) (active : List Activation) (f : Closure)
    (arguments : List CellRef) (site : Span) :
    Accounts (Trace.call cfg (n + 1) active f arguments site)
      (Eval.call cfg (n + 1) f arguments site) := by
  simp only [Trace.call, Eval.call]
  apply Accounts.during
  split
  · exact .own _ _ _
  refine .bind (.quiet .get) fun m => ?_
  split
  · exact .own _ _ _
  exact .asCall (.inFrame (rec.code _ f.code) _ _ _ _) _ _ _

theorem literal_succ (rec : Recorded cfg n) (active : List Activation) (l : Literal) :
    Accounts (Trace.literal cfg (n + 1) active l) (Eval.literal cfg (n + 1) l) := by
  simp only [Trace.literal]
  apply Accounts.during
  cases l with
  | missing => exact .own _ _ _
  | integer | real | boolean | string | empty => exact .quiet (.newCell _)
  | array span es =>
    refine .bind (.mapM (rec.expr active) es) fun cells => ?_
    exact .bind (.quiet (.newArray cells)) fun v => .quiet (.newCell v)
  | tuple span es =>
    refine .bind (.mapM ?_ es) fun fields => .bind (.own _ _ _) fun v => .quiet (.newCell v)
    rintro ⟨_, name, value⟩
    exact .bind (rec.expr active value) fun c => .pure (name, c)
  | function span params b => exact .quiet (.closure _ _ _)
  | lambda span params result => exact .quiet (.closure _ _ _)

theorem statement_succ (rec : Recorded cfg n) (active : List Activation) (s : Statement) :
    Accounts (Trace.statement cfg (n + 1) active s) (Eval.statement cfg (n + 1) s) := by
  simp only [Trace.statement]
  apply Accounts.during
  cases s with
  | declare span name initial =>
    simp only [Eval.statement]
    split
    · exact .bind (.quiet (.newCell _)) fun c => .quiet (.bindName name c)
    · refine .bind (rec.expr active initial) fun c => .bind (.quiet (.bindName name c)) fun _ => ?_
      split
      · exact .quiet (.knowItself name c)
      · exact .pure ()
  | assign span target op value =>
    simp only [Eval.statement]
    refine .bind (rec.primary active target) fun c => ?_
    cases op with
    | none => exact .pure ()
    | some op =>
      dsimp only
      split
      · exact .pure ()
      · refine .bind (rec.expr active value) fun d => .bind (.quiet (.contents d)) fun v => ?_
        exact .own _ _ _
  | branch span e yes no =>
    refine .bind (rec.condition active _ "if" e) fun holds => ?_
    split
    · exact rec.block active yes
    · exact rec.block active no
  | forLoop span counter low high b =>
    refine .bind (rec.bound active _ "lower" low) fun low => ?_
    refine .bind (rec.bound active _ "upper" high) fun high => ?_
    exact .inFrame (rec.rounds active counter b _ _) _ _ _ _
  | whileLoop span e b =>
    exact .whileHolds (rec.condition active _ "while" e) (rec.block active b) n
  | print span arguments =>
    refine .forM (fun e => ?_) arguments
    exact .bind (rec.expr active e) fun c => .bind (.quiet (.contents c)) fun v => .own _ _ _
  | ret span value =>
    have returned (c : CellRef) : (throw (.ret c) : Run Unit).Calm :=
      .throw fun _ same => Stop.noConfusion same
    simp only [Eval.statement]
    split
    · exact .bind (.quiet (.newCell _)) fun c => .quiet (returned c)
    · exact .bind (rec.expr active value) fun c => .quiet (returned c)
  | brk span => exact .quiet (.throw fun _ same => Stop.noConfusion same)
  | cont span => exact .quiet (.throw fun _ same => Stop.noConfusion same)
  | block b => exact rec.block active b

theorem block_succ (rec : Recorded cfg n) (active : List Activation) (b : Body) :
    Accounts (Trace.block cfg (n + 1) active b) (Eval.block cfg (n + 1) b) := by
  cases b with
  | missing => exact .during (.pure ()) _ _
  | mk span ss cleared => exact .during (.inFrame (rec.sequence active ss) _ _ _ _) _ _

end Recorded

theorem recorded (cfg : Settings) (n : Nat) : Recorded cfg n := by
  induction n with
  | zero => constructor <;> intros <;> exact .exhausted
  | succ n rec =>
    exact {
      expr := rec.expr_succ
      operand := rec.operand_succ
      primary := rec.primary_succ
      tail := rec.tail_succ
      call := rec.call_succ
      literal := rec.literal_succ
      condition := fun active node construct e => by
        simp only [condition, Eval.condition]
        refine .bind (rec.expr active e) fun c => .bind (.quiet (.contents c)) fun v => ?_
        cases v <;> exact .own _ _ _
      bound := fun active node which e => by
        simp only [bound, Eval.bound]
        refine .bind (rec.expr active e) fun c => .bind (.quiet (.contents c)) fun v => ?_
        cases v <;> exact .own _ _ _
      statement := rec.statement_succ
      block := rec.block_succ }

/-- The traced program is the program. -/
theorem program_accounts (cfg : Settings) (fuel : Nat) (p : Program) :
    Accounts (program cfg fuel p) (p.body.statements.forM (Eval.statement cfg fuel)) :=
  (recorded cfg fuel).sequence [] p.body.statements

end Trace

end CellScript
