import CellScript.Proofs.Plan.Laws
import CellScript.Proofs.Simulation.Steps

/-! No reference dangles. Whatever a machine can come to by its names, its functions and the items of its
arrays and tuples is a cell that exists. Such a machine is like itself, under a pairing of cells that do, and
what evaluation does to alike machines says that this stays so; here it is followed through every point of a
run, those that a bound cuts off included. -/
namespace CellScript

open Run

/-- All that the machine refers to are cells of the pairing. The code of functions does not matter. -/
def Machine.Within (R : Pairing) (m : Machine) : Prop := Machine.Alike (fun _ _ => True) R m m

/-- All that the machine refers to are cells that exist. -/
def Machine.Closed (m : Machine) : Prop := ∃ R, m.Within R

/-- The value refers to cells of the pairing only. -/
abbrev Value.Within (R : Pairing) (v : Value) : Prop := Value.Alike (fun _ _ => True) R v v

namespace Run

variable {α β : Type} {R S T : Pairing} {Q : Pairing → α → α → Prop} {P : Pairing → β → β → Prop}

/-- A step that ended with a machine within the pairing, as is the value it gave. -/
inductive Stays (Q : Pairing → α → α → Prop) (R : Pairing) : EStateM.Result Stop Machine α → Prop where
  | ok {a : α} {m : Machine} (value : Q R a a) (within : m.Within R) : Stays Q R (.ok a m)
  | error {s : Stop} {m : Machine} (stop : ∀ c, s = .ret c → R.pairs c c) (within : m.Within R) :
    Stays Q R (.error s m)

theorem Stays.fault {e : RuntimeError} {m : Machine} (within : m.Within R) : Stays Q R (.error (.fault e) m) :=
  .error (fun _ => Stop.noConfusion) within

theorem Stays.within {r : EStateM.Result Stop Machine α} (stays : Stays Q R r) : (reached r).Within R := by
  cases stays with
  | ok value within => exact within
  | error stop within => exact within

/-- A step that ends with a value or with a fault. -/
def Tireless (x : Run α) : Prop :=
  ∀ m, (∃ a m', x m = .ok a m') ∨ ∃ e m', x m = .error (.fault e) m'

theorem Ended.stays {r r' : EStateM.Result Stop Machine α} (ended : Ended (fun _ _ => True) R Q r r')
    (same : r = r') : Stays Q R r := by
  cases ended with
  | ok values machines =>
    cases same
    exact .ok values machines
  | error stops machines =>
    cases same
    refine .error ?_ machines
    rintro c rfl
    cases stops with
    | ret paired => exact paired

/-- What holds of two alike machines holds of one that is like itself. -/
theorem Follows.stays {x : Run α} (follows : Follows (fun _ _ => True) R Q x fun _ => x)
    (tireless : Tireless x) (above : R ≤ S) {m : Machine} (within : m.Within S) : ∃ T, S ≤ T ∧ Stays Q T (x m) := by
  obtain ⟨m', out⟩ | ⟨T, more, r, ⟨bound, settles⟩, ended⟩ := follows S above m m within
  · obtain ⟨a, n, same⟩ | ⟨e, n, same⟩ := tireless m
    all_goals
      rw [same] at out
      cases out
  · exact ⟨T, more, ended.stays (settles bound (Nat.le_refl _))⟩

theorem Inward.tireless {x : Run α} (inward : Inward x) : Tireless x := by
  intro m
  obtain ⟨r, h, ends⟩ := inward m.scopes m.heap
  have ends : x m = settle m h r := ends m.calls m.output m.input
  rw [ends]
  cases r with
  | ok a => exact .inl ⟨_, _, rfl⟩
  | error e => exact .inr ⟨_, _, rfl⟩

theorem Tireless.bind {x : Run α} {f : α → Run β} (first : Tireless x) (rest : ∀ a, Tireless (f a)) :
    Tireless (x >>= f) := by
  intro m
  change (∃ a m', EStateM.bind x f m = .ok a m') ∨ ∃ e m', EStateM.bind x f m = .error (.fault e) m'
  unfold EStateM.bind
  obtain ⟨a, m', ended⟩ | ⟨e, m', ended⟩ := first m
  · rw [ended]
    exact rest a m'
  · rw [ended]
    exact .inr ⟨e, m', rfl⟩

theorem Tireless.showOutput (span : Span) : Tireless (showOutput span) := by
  intro m
  unfold Run.showOutput
  dsimp only
  split
  · exact .inr ⟨_, _, rfl⟩
  · exact .inl ⟨_, _, rfl⟩

theorem Tireless.takeWord (span : Span) (what : Text) : Tireless (takeWord span what) := by
  intro m
  unfold Run.takeWord
  dsimp only
  split
  · exact .inl ⟨_, _, rfl⟩
  · split <;> exact .inr ⟨_, _, rfl⟩

end Run

theorem Value.Alike.scalar {R : Pairing} {v : Value} (plain : v.isScalar = true) : v.Within R := by
  cases v with
  | array | tuple | func => cases plain
  | _ => constructor

/-- All that the act refers to are cells of the pairing. -/
def Act.Within (R : Pairing) : {α : Type} → Act α → Prop
  | _, .contents c | _, .bind _ c => R.pairs c c
  | _, .array cells => List.Forall₂ R.pairs cells cells
  | _, .tuple _ fields => Bindings.Alike R fields fields
  | _, .operand _ _ _ _ v | _, .itemAt _ _ v | _, .itemNamed _ _ v | _, .print _ v => v.Within R
  | _, .reduce _ _ first _ second rest =>
    first.Within R ∧ second.Within R ∧ ∀ x ∈ rest, x.2.Within R
  | _, .itemUnder _ _ key v => R.pairs key key ∧ v.Within R
  | _, .assign _ target _ source => R.pairs target target ∧ R.pairs source source
  | _, .lookup .. | _, .scalar .. | _, .function .. | _, .declareFunction .. => True

/-- What an act gives refers to cells of the pairing only. -/
def Act.Gives : {α : Type} → Act α → Pairing → α → α → Prop
  | _, .contents _ => Value.Alike fun _ _ => True
  | _, .bind .. | _, .declareFunction .. | _, .assign .. | _, .print .. => fun _ => Eq
  | _, .lookup .. | _, .scalar .. | _, .array _ | _, .tuple .. | _, .function .. | _, .operand ..
  | _, .reduce .. | _, .itemAt .. | _, .itemNamed .. | _, .itemUnder .. => Pairing.pairs

theorem Act.tireless {α : Type} (a : Act α) : Tireless a.run := by
  induction a using Act.inward_cases with
  | inward a inward => exact inward.tireless
  | bind name c => exact fun _ => .inl ⟨_, _, rfl⟩
  | declare name span params code => exact fun m => .inl ⟨_, _, run_declareFunction name span params code m⟩
  | print span v =>
    intro m
    change (∃ a m', (if (m.output.write (m.heap.render v)).failed then _ else _) = _) ∨
      ∃ e m', (if (m.output.write (m.heap.render v)).failed then _ else _) = _
    split
    · exact .inr ⟨_, _, rfl⟩
    · exact .inl ⟨_, _, rfl⟩

/-- An act keeps a machine within a pairing, perhaps a larger one. -/
theorem Act.stays {α : Type} {R S : Pairing} (a : Act α) (refers : a.Within R) (above : R ≤ S) {m : Machine}
    (within : m.Within S) : ∃ T, S ≤ T ∧ Stays a.Gives T (a.run m) := by
  refine Follows.stays (R := R) ?_ a.tireless above within
  cases a with
  | contents c => exact .contents refers
  | lookup span name => exact .lookup span name
  | bind name c => exact .bindName name refers
  | scalar v plain => exact .newCell (.scalar plain)
  | array cells => exact .bind (.newArray refers) fun S above v w values => .newCell values
  | tuple span fields => exact .bind (.newTuple span refers) fun S above v w values => .newCell values
  | function span params code => exact .closure span params trivial
  | declareFunction name span params code =>
    exact .bind (.closure span params trivial) fun S above c d paired =>
      .bind (.bindName name paired) fun T more _ _ _ => .knowItself name (more _ _ paired)
  | operand span op test given v =>
    exact .bind (.operand span refers op test) fun S above v w values => .newCell values
  | reduce assoc span first op second rest =>
    obtain ⟨start, next, others⟩ := refers
    refine .bind (.onHeap span fun S above h k heaps => ?_) fun S above v w values => .newCell values
    refine Operators.reduceFrom_rel (.cons ⟨rfl, next.mono above⟩ ?_) .nil (start.mono above) heaps assoc
    exact List.forall₂_same.mpr fun x member => ⟨rfl, (others x member).mono above⟩
  | itemAt span position v => exact .itemAt span position refers
  | itemNamed span name v => exact .itemNamed span name refers
  | itemUnder span keySpan key v => exact .itemUnder span keySpan refers.1 refers.2
  | assign span target op source =>
    exact .bind (.contents refers.2) fun S above v w values => .assignTo span (above _ _ refers.1) op values
  | print span v => exact .print span refers

namespace Machine.Within

variable {R S : Pairing} {m : Machine}

/-- Only the heap and the scopes refer to cells. -/
theorem of_parts (heap : Heap.Alike (fun _ _ => True) R m.heap m.heap)
    (scopes : Scopes.Alike R m.scopes m.scopes) : m.Within R :=
  ⟨heap, scopes, rfl, rfl, rfl⟩

theorem openWith (within : m.Within R) (owner : Option Owner) {bindings : Bindings}
    (frame : Bindings.Alike R bindings bindings) :
    { m with scopes := m.scopes.openWith owner bindings }.Within R :=
  .of_parts within.heap (within.scopes.openWith frame owner)

theorem enter (within : m.Within R) {f : Closure} (captured : Bindings.Alike R f.captured f.captured)
    {cells : List CellRef} (known : List.Forall₂ R.pairs cells cells) : (m.enter f cells).Within R :=
  .of_parts within.heap (within.scopes.openWith (captured.override (.zip known f.params)) _)

theorem close (within : m.Within R) {owner : Option Owner} {scopes : Scopes}
    (closed : m.scopes.close owner = .ok scopes) : { m with scopes := scopes }.Within R := by
  obtain ⟨s, t, here, there, alike⟩ | ⟨fault, here, there⟩ := within.scopes.close owner
  · rw [closed] at here there
    cases here
    cases there
    exact .of_parts within.heap alike
  · rw [closed] at here
    cases here

end Machine.Within

namespace Run.Stays

variable {α : Type} {R : Pairing} {Q : Pairing → α → α → Prop}

theorem inFrame {owner : Owner} {bindings : Bindings} {x : Run α} {m : Machine}
    (stays : Stays Q R (x { m with scopes := m.scopes.openWith (some owner) bindings })) :
    Stays Q R (Run.inFrame owner bindings x m) := by
  unfold Run.inFrame
  generalize x { m with scopes := m.scopes.openWith (some owner) bindings } = r at stays
  cases stays with
  | @ok a m' value within =>
    dsimp only
    cases closed : m'.scopes.close (some owner) with
    | ok scopes => exact .ok value (within.close closed)
    | error fault => exact .fault within
  | @error stop m' known within =>
    dsimp only
    cases closed : m'.scopes.close (some owner) with
    | ok scopes => exact .error known (within.close closed)
    | error fault => exact .error known within

/-- A call without a result gives a fresh cell. -/
theorem leave {r : EStateM.Result Stop Machine (Option CellRef)}
    (stays : Stays (fun R => Option.Rel R.pairs) R r) (site : Span) : ∃ T, R ≤ T ∧ Stays Pairing.pairs T (Eval.leave site r) := by
  cases stays with
  | @ok result m value within =>
    have counted : { m with calls := m.calls - 1 }.Within R := .of_parts within.heap within.scopes
    cases value with
    | some known => exact ⟨R, le_rfl, .ok known counted⟩
    | none => exact (Follows.newCell .empty).stays (Inward.newCell _).tireless le_rfl counted
  | @error stop m known within =>
    have counted : { m with calls := m.calls - 1 }.Within R := .of_parts within.heap within.scopes
    cases stop with
    | ret c => exact ⟨R, le_rfl, .ok (known c rfl) counted⟩
    | brk span | cont span | fault e | exhausted => exact ⟨R, le_rfl, .error nofun counted⟩

end Run.Stays

namespace Plan

variable {α β γ : Type} {R S : Pairing} {Q : Pairing → α → α → Prop} {P : Pairing → β → β → Prop}

/-- Started within the pairing or a larger one, the plan passes closed machines only, up to its end. -/
def Safe (R : Pairing) (Q : Pairing → α → α → Prop) (x : Plan α) : Prop :=
  ∀ S, R ≤ S → ∀ m, m.Within S →
    (∀ d ∈ x.deeds m, d.machine.Closed) ∧ ∃ T, S ≤ T ∧ Stays Q T (x.run m)

namespace Safe

theorem weaken {x : Plan α} (safe : Safe R Q x) (more : R ≤ S) : Safe S Q x :=
  fun T above => safe T (more.trans above)

theorem pure (stable : Stable Q) {a : α} (value : Q R a a) : Safe R Q (.pure a) :=
  fun S above _ within => ⟨List.forall_mem_nil _, S, le_rfl, .ok (stable above value) within⟩

theorem stop {s : Stop} (known : ∀ c, s = .ret c → R.pairs c c) : Safe R Q (.stop s) :=
  fun S above _ within =>
    ⟨List.forall_mem_nil _, S, le_rfl, .error (fun c same => above _ _ (known c same)) within⟩

theorem fail (span : Span) (fault : Fault) : Safe R Q (Plan.fail span fault) :=
  stop fun _ => Stop.noConfusion

theorem exhausted : Safe R Q (.stop .exhausted) := stop fun _ => Stop.noConfusion

theorem act (a : Act α) (refers : a.Within R) : Safe R a.Gives (.act a) := by
  intro S above m within
  refine ⟨fun d member => ?_, a.stays refers above within⟩
  rw [List.mem_singleton.mp member]
  exact ⟨S, within⟩

theorem bind {x : Plan α} {f : α → Plan β} (first : Safe R Q x)
    (rest : ∀ S, R ≤ S → ∀ a, Q S a a → Safe S P (f a)) : Safe R P (x >>= f) := by
  intro S above m within
  obtain ⟨before, T, more, ended⟩ := first S above m within
  change (∀ d ∈ x.deeds m ++ following (x.run m) fun a m => (f a).deeds m, d.machine.Closed) ∧
    ∃ T, S ≤ T ∧ Stays P T (EStateM.bind x.run (fun a => (f a).run) m)
  unfold EStateM.bind
  generalize x.run m = r at ended ⊢
  cases ended with
  | ok value within =>
    obtain ⟨after, U, more', ended⟩ := rest T (above.trans more) _ value T le_rfl _ within
    exact ⟨List.forall_mem_append.mpr ⟨before, after⟩, U, more.trans more', ended⟩
  | error known within =>
    exact ⟨List.forall_mem_append.mpr ⟨before, List.forall_mem_nil _⟩, T, more, .error known within⟩

theorem read (span : Span) (kind : ReadKind) : Safe R Pairing.pairs (.read span kind) := by
  intro S above m within
  constructor
  · intro d member
    change d ∈ following (showOutput span m) fun _ m => [.asked span kind m] at member
    unfold showOutput at member
    dsimp only at member
    split at member
    · exact absurd member List.not_mem_nil
    · rw [List.mem_singleton.mp member]
      exact ⟨S, .of_parts within.heap within.scopes⟩
  · have tireless : Tireless (do showOutput span; takeValue span kind) :=
      .bind (.showOutput span) fun _ => .bind (.takeWord span _) fun w =>
        (Inward.understand span kind w).tireless
    change ∃ T, S ≤ T ∧ Stays Pairing.pairs T ((do showOutput span; takeValue span kind : Run CellRef) m)
    rw [← readValue_eq] at tireless ⊢
    exact Follows.stays (.bind (.readValue span _) fun S above v w values => .newCell values) tireless le_rfl within

theorem frame {x : Plan Unit} (owner : Owner) (inside : Safe R (fun _ => Eq) x) :
    Safe R (fun _ => Eq) (.frame owner x) := by
  intro S above m within
  obtain ⟨passed, T, more, ended⟩ := inside S above _ (within.openWith (some owner) .nil)
  exact ⟨passed, T, more, ended.inFrame⟩

theorem round {x next : Plan Unit} (body : Safe R (fun _ => Eq) x) (rest : Safe R (fun _ => Eq) next) :
    Safe R (fun _ => Eq) (.round x next) := by
  intro S above m within
  obtain ⟨before, T, more, ended⟩ := body S above m within
  have after {m' : Machine} (within : m'.Within T) :
      (∀ d ∈ next.deeds m', d.machine.Closed) ∧ ∃ U, S ≤ U ∧ Stays (fun _ => Eq) U (next.run m') := by
    obtain ⟨passed, U, more', ended⟩ := rest T (above.trans more) m' within
    exact ⟨passed, U, more.trans more', ended⟩
  change (∀ d ∈ x.deeds m ++ _, d.machine.Closed) ∧ ∃ T, S ≤ T ∧ Stays _ T (Run.round x.run next.run m)
  unfold Run.round
  generalize x.run m = r at ended ⊢
  cases ended with
  | ok value within =>
    obtain ⟨passed, ended⟩ := after within
    exact ⟨List.forall_mem_append.mpr ⟨before, passed⟩, ended⟩
  | @error stop m' known within =>
    cases stop with
    | cont span =>
      obtain ⟨passed, ended⟩ := after within
      exact ⟨List.forall_mem_append.mpr ⟨before, passed⟩, ended⟩
    | brk span => exact ⟨List.forall_mem_append.mpr ⟨before, List.forall_mem_nil _⟩, T, more, .ok rfl within⟩
    | ret c | fault e | exhausted =>
      exact ⟨List.forall_mem_append.mpr ⟨before, List.forall_mem_nil _⟩, T, more, .error known within⟩

theorem call (limit : Nat) (site : Span) {c : CellRef} (known : R.pairs c c) {arguments : Plan (List CellRef)}
    (given : Safe R (fun R => List.Forall₂ R.pairs) arguments) {code : Closure → Plan (Option CellRef)}
    (body : ∀ f, Safe R (fun R => Option.Rel R.pairs) (code f)) :
    Safe R Pairing.pairs (.call limit site c arguments code) := by
  intro S above m within
  have held := within.heap.contents (above _ _ known)
  rw [run_call]
  unfold deeds
  generalize m.heap.get c = v at held ⊢
  cases held with
  | @func f _ closures =>
    obtain ⟨before, T, more, ended⟩ := given S above m within
    dsimp only
    unfold EStateM.bind
    generalize arguments.run m = r at ended ⊢
    cases ended with
    | error known within =>
      exact ⟨List.forall_mem_append.mpr ⟨before, List.forall_mem_nil _⟩, T, more, .error known within⟩
    | @ok cells m' value within =>
      dsimp only [following]
      split
      next fits =>
        have entered := within.enter (closures.captured.mono more) value
        obtain ⟨after, U, more', ended⟩ := body f T (above.trans more) _ entered
        have framed : Stays (fun R => Option.Rel R.pairs) U
            (Run.inFrame ⟨.function, f.span, []⟩ (f.captured.override (f.params.zip cells)) (code f).run
              { m' with calls := m'.calls + 1 }) := .inFrame ended
        obtain ⟨V, more'', ended⟩ := framed.leave site
        rw [invoke_enter _ fits.1 fits.2]
        exact ⟨List.forall_mem_append.mpr ⟨before, List.forall_mem_cons.mpr ⟨⟨T, entered⟩, after⟩⟩, V,
          more.trans (more'.trans more''), ended⟩
      next refused =>
        obtain ⟨fault, refuses⟩ := invoke_refuse (code f).run refused
        rw [refuses m' rfl]
        exact ⟨List.forall_mem_append.mpr ⟨before, List.forall_mem_nil _⟩, T, more, .fault within⟩
  | _ => exact ⟨List.forall_mem_nil _, S, le_rfl, .fault within⟩

theorem mapM' (stable : Stable P) {f : α → Plan β} (each : ∀ a, Safe R P (f a)) (xs : List α) :
    Safe R (fun R => List.Forall₂ (P R)) (xs.mapM' f) := by
  induction xs generalizing R with
  | nil => exact pure stable.forall₂ .nil
  | cons x xs ih =>
    refine bind (each x) fun S above b value => ?_
    refine bind (ih fun a => (each a).weaken above) fun T above bs values => ?_
    exact pure stable.forall₂ (.cons (stable above value) values)

theorem forM {f : α → Plan Unit} (each : ∀ a, Safe R (fun _ => Eq) (f a)) (xs : List α) :
    Safe R (fun _ => Eq) (xs.forM f) := by
  induction xs generalizing R with
  | nil => exact pure stable_eq rfl
  | cons x xs ih => exact bind (each x) fun S above _ _ => ih fun a => (each a).weaken above

theorem foldlM (stable : Stable P) {f : β → α → Plan β}
    (each : ∀ S, R ≤ S → ∀ b a, P S b b → Safe S P (f b a)) {b : β} (start : P R b b) (xs : List α) :
    Safe R P (xs.foldlM f b) := by
  induction xs generalizing R b with
  | nil => exact pure stable start
  | cons x xs ih =>
    refine bind (each R le_rfl b x start) fun S above b value => ?_
    exact ih (fun T more => each T (above.trans more)) value

theorem forCount {body : Int64 → Plan Unit} (each : ∀ v, Safe R (fun _ => Eq) (body v)) (count : Nat)
    (v : Int64) : Safe R (fun _ => Eq) (Plan.forCount body count v) := by
  induction count generalizing v with
  | zero => exact pure stable_eq rfl
  | succ count ih => exact round (each v) (ih (v + 1))

theorem whileHolds {condition : Plan Bool} {body : Plan Unit} (asked : Safe R (fun _ => Eq) condition)
    (inside : Safe R (fun _ => Eq) body) (rounds : Nat) :
    Safe R (fun _ => Eq) (Plan.whileHolds condition body rounds) := by
  induction rounds generalizing R with
  | zero => exact exhausted
  | succ rounds ih =>
    refine bind asked fun S above holds _ => ?_
    cases holds with
    | false => exact pure stable_eq rfl
    | true => exact round (inside.weaken above) (ih (asked.weaken above) (inside.weaken above))

end Safe

/-- Under a bound of `n`, the plans of all parts are safe. -/
structure Guarded (cfg : Settings) (n : Nat) : Prop where
  expr (R : Pairing) (e : Expr) : Safe R Pairing.pairs (Plan.expr cfg n e)
  operand (R : Pairing) (x : Operand) : Safe R Pairing.pairs (Plan.operand cfg n x)
  primary (R : Pairing) (p : Primary) : Safe R Pairing.pairs (Plan.primary cfg n p)
  tail (R : Pairing) (c : CellRef) (t : Tail) (known : R.pairs c c) :
    Safe R Pairing.pairs (Plan.tail cfg n c t)
  literal (R : Pairing) (l : Literal) : Safe R Pairing.pairs (Plan.literal cfg n l)
  condition (R : Pairing) (construct : String) (e : Expr) :
    Safe R (fun _ => Eq) (Plan.condition cfg n construct e)
  bound (R : Pairing) (which : String) (e : Expr) : Safe R (fun _ => Eq) (Plan.bound cfg n which e)
  statement (R : Pairing) (s : Statement) : Safe R (fun _ => Eq) (Plan.statement cfg n s)
  block (R : Pairing) (b : Body) : Safe R (fun _ => Eq) (Plan.block cfg n b)

namespace Guarded

variable {cfg : Settings} {n : Nat}

/-- The value of a part. -/
theorem contents {x : Plan CellRef} (safe : Safe R Pairing.pairs x) :
    Safe R (Value.Alike fun _ _ => True) (do .act (.contents (← x))) :=
  .bind safe fun _ _ c known => .act (.contents c) known

theorem zero : Guarded cfg 0 := by
  constructor <;> intros <;> exact .exhausted

theorem expr_succ (rec : Guarded cfg n) (R : Pairing) (e : Expr) :
    Safe R Pairing.pairs (Plan.expr cfg (n + 1) e) := by
  cases e with
  | missing => exact .fail _ _
  | mk span xs ops =>
    cases xs with
    | nil => exact .fail _ _
    | cons x xs =>
      simp only [Plan.expr]
      split
      · exact .fail _ _
      · split
        next y ys op ops fits =>
          refine .bind (rec.operand R x) fun S above c known => ?_
          refine .bind (.act (.contents c) known) fun S above first start => ?_
          refine .bind (rec.operand S y) fun S above' c known => ?_
          refine .bind (.act (.contents c) known) fun S above'' second next => ?_
          have later (x : Operand) := contents (rec.operand S x)
          refine .bind (.mapM' stable_values later ys) fun T more rest others => ?_
          refine .act (.reduce ..) ⟨?_, next.mono more, ?_⟩
          · exact (start.mono above').mono (above''.trans more)
          · rintro ⟨op, v⟩ member
            exact List.forall₂_same.mp others v (List.of_mem_zip member).2
        next => exact rec.operand R x

theorem operand_succ (rec : Guarded cfg n) (R : Pairing) (x : Operand) :
    Safe R Pairing.pairs (Plan.operand cfg (n + 1) x) := by
  obtain ⟨span, op, p, test⟩ := x
  simp only [Plan.operand]
  refine .bind (rec.primary R p) fun S above c known => ?_
  split
  · exact .bind (.act (.contents c) known) fun T more v value => .act (.operand ..) value
  · exact .pure stable_pairs known

theorem primary_succ (rec : Guarded cfg n) (R : Pairing) (p : Primary) :
    Safe R Pairing.pairs (Plan.primary cfg (n + 1) p) := by
  match p with
  | .read span (.other w unknown) => exact .fail _ _
  | .read span (.known kind) => exact .read span kind
  | .literal span l => exact rec.literal R l
  | .paren span inner => exact rec.expr R inner
  | .ref span name tails =>
    refine .bind (.act (.lookup span name) trivial) fun S above c known => ?_
    exact .foldlM stable_pairs (fun T more c t known => rec.tail T c t known) known tails

theorem code (rec : Guarded cfg n) (R : Pairing) (f : Closure) :
    Safe R (fun R => Option.Rel R.pairs) (Plan.code (Plan.expr cfg n) (Plan.statement cfg n) f) := by
  unfold Plan.code
  split
  next e same => exact .bind (rec.expr R e) fun S above c known => .pure stable_option (.some known)
  next b same =>
    exact .bind (.forM (rec.statement R) b.statements) fun S above _ _ => .pure stable_option .none

theorem tail_succ (rec : Guarded cfg n) (below : ∀ k, n = k + 1 → Guarded cfg k) (R : Pairing) (c : CellRef)
    (t : Tail) (known : R.pairs c c) : Safe R Pairing.pairs (Plan.tail cfg (n + 1) c t) := by
  cases t with
  | index span position =>
    exact .bind (.act (.contents c) known) fun S above v value => .act (.itemAt ..) value
  | field span name =>
    exact .bind (.act (.contents c) known) fun S above v value => .act (.itemNamed ..) value
  | subscript span key =>
    refine .bind (.act (.contents c) known) fun S above v value => ?_
    exact .bind (rec.expr S key) fun T more k known => .act (.itemUnder ..) ⟨known, value.mono more⟩
  | call span arguments =>
    match n with
    | 0 =>
      refine .bind (.act (.contents c) known) fun S above v value => ?_
      cases v with
      | func f => exact .exhausted
      | _ => exact .fail _ _
    | n + 1 =>
      exact .call _ span known (.mapM' stable_pairs (rec.expr R) arguments) ((below n rfl).code R)

theorem literal_succ (rec : Guarded cfg n) (R : Pairing) (l : Literal) :
    Safe R Pairing.pairs (Plan.literal cfg (n + 1) l) := by
  cases l with
  | missing => exact .fail _ _
  | integer | real | boolean | string | empty => exact .act (.scalar ..) trivial
  | array span es =>
    exact .bind (.mapM' stable_pairs (rec.expr R) es) fun S above cells known => .act (.array cells) known
  | tuple span es =>
    refine .bind (.mapM' stable_fields (fun e => ?_) es) fun S above fields known =>
      .act (.tuple span fields) known
    obtain ⟨_, name, value⟩ := e
    exact .bind (rec.expr R value) fun S above c known => .pure stable_fields ⟨rfl, known⟩
  | function | lambda => exact .act (.function ..) trivial

theorem condition_succ (rec : Guarded cfg n) (R : Pairing) (construct : String) (e : Expr) :
    Safe R (fun _ => Eq) (Plan.condition cfg (n + 1) construct e) := by
  refine .bind (rec.expr R e) fun S above c known => .bind (.act (.contents c) known) fun T more v _ => ?_
  cases v with
  | bool b => exact .pure stable_eq rfl
  | _ => exact .fail _ _

theorem bound_succ (rec : Guarded cfg n) (R : Pairing) (which : String) (e : Expr) :
    Safe R (fun _ => Eq) (Plan.bound cfg (n + 1) which e) := by
  refine .bind (rec.expr R e) fun S above c known => .bind (.act (.contents c) known) fun T more v _ => ?_
  cases v with
  | int k => exact .pure stable_eq rfl
  | _ => exact .fail _ _

theorem statement_succ (rec : Guarded cfg n) (R : Pairing) (s : Statement) :
    Safe R (fun _ => Eq) (Plan.statement cfg (n + 1) s) := by
  cases s with
  | declare span name initial =>
    simp only [Plan.statement]
    split
    · exact .bind (.act (.scalar ..) trivial) fun S above c known => .act (.bind name c) known
    split
    · split
      · exact .exhausted
      · exact .act (.declareFunction ..) trivial
    · exact .bind (rec.expr R initial) fun S above c known => .act (.bind name c) known
  | assign span target op value =>
    refine .bind (rec.primary R target) fun S above c known => ?_
    cases op with
    | none => exact .pure stable_eq rfl
    | some op =>
      dsimp only
      split
      · exact .pure stable_eq rfl
      · exact .bind (rec.expr S value) fun T more d source => .act (.assign ..) ⟨more _ _ known, source⟩
  | branch span e yes no =>
    refine .bind (rec.condition R _ e) fun S above holds _ => ?_
    cases holds with
    | true => exact rec.block S yes
    | false => exact rec.block S no
  | forLoop span counter low high b =>
    refine .bind (rec.bound R _ low) fun S above low _ => .bind (rec.bound S _ high) fun T more high _ => ?_
    refine .frame _ (.forCount (fun v => ?_) _ _)
    refine .bind (.act (.scalar ..) trivial) fun U above c known => ?_
    exact .bind (.act (.bind counter c) known) fun V above _ _ => rec.block V b
  | whileLoop span e b => exact .whileHolds (rec.condition R _ e) (rec.block R b) n
  | print span es =>
    refine .forM (fun e => ?_) es
    refine .bind (rec.expr R e) fun S above c known => ?_
    exact .bind (.act (.contents c) known) fun T more v value => .act (.print span v) value
  | ret span value =>
    have given {S : Pairing} {c : CellRef} (known : S.pairs c c) :
        ∀ d, Stop.ret c = .ret d → S.pairs d d := by
      rintro d ⟨⟩
      exact known
    simp only [Plan.statement]
    split
    · exact .bind (.act (.scalar ..) trivial) fun S above c known => .stop (given known)
    · exact .bind (rec.expr R value) fun S above c known => .stop (given known)
  | brk | cont => exact .stop fun _ => Stop.noConfusion
  | block b => exact rec.block R b

theorem block_succ (rec : Guarded cfg n) (R : Pairing) (b : Body) :
    Safe R (fun _ => Eq) (Plan.block cfg (n + 1) b) := by
  cases b with
  | missing => exact .pure stable_eq rfl
  | mk span ss tokens => exact .frame _ (.forM (rec.statement R) ss)

theorem succ (rec : Guarded cfg n) (below : ∀ k, n = k + 1 → Guarded cfg k) : Guarded cfg (n + 1) where
  expr := rec.expr_succ
  operand := rec.operand_succ
  primary := rec.primary_succ
  tail := rec.tail_succ below
  literal := rec.literal_succ
  condition := rec.condition_succ
  bound := rec.bound_succ
  statement := rec.statement_succ
  block := rec.block_succ

end Guarded

/-- No evaluation leaves the closed machines. The code of a function is two bounds below its call. -/
theorem guarded (cfg : Settings) : ∀ n, Guarded cfg n
  | 0 => .zero
  | 1 => Guarded.zero.succ nofun
  | n + 2 => (guarded cfg (n + 1)).succ fun _ same => Nat.succ.inj same ▸ guarded cfg n

end Plan

namespace Machine

/-- There are no cells at first. -/
theorem Closed.initial : Machine.initial.Closed := ⟨.upTo 0, .empty _, ⟨.nil, .nil⟩, rfl, rfl, rfl⟩

end Machine

/-- Before each deed of a chronicle and after all of them, no reference dangles. -/
theorem Chronicle.closed {cfg : Settings} {past : List Deed} {m : Machine}
    (chronicle : Chronicle cfg past m) : (∀ d ∈ past, d.machine.Closed) ∧ m.Closed := by
  induction chronicle with
  | initial => exact ⟨List.forall_mem_nil _, .initial⟩
  | connect before input output ih =>
    obtain ⟨passed, R, within⟩ := ih
    exact ⟨passed, R, .of_parts within.heap within.scopes⟩
  | @program past m before fuel p ih =>
    obtain ⟨passed, R, within⟩ := ih
    obtain ⟨more, S, -, ended⟩ :=
      Plan.Safe.forM ((Plan.guarded cfg fuel).statement R) p.body.statements R le_rfl m within
    refine ⟨List.forall_mem_append.mpr ⟨passed, more⟩, S, ?_⟩
    change Run.Stays _ _ ((Plan.program cfg fuel p).run m) at ended
    rw [Plan.run_program] at ended
    rw [Eval.program_eq_conclude]
    generalize p.body.statements.forM (Eval.statement cfg fuel) m = r at ended ⊢
    have after := ended.within
    match r with
    | .ok _ m' | .error (.ret _) m' => exact .of_parts after.heap after.scopes
    | .error (.fault _) m' | .error (.brk _) m' | .error (.cont _) m' | .error .exhausted m' =>
      exact .of_parts after.heap after.scopes.reset
  | @expression past m before fuel e ih =>
    obtain ⟨passed, R, within⟩ := ih
    obtain ⟨more, S, -, ended⟩ := (Plan.guarded cfg fuel).expr R e R le_rfl m within
    refine ⟨List.forall_mem_append.mpr ⟨passed, more⟩, S, ?_⟩
    rw [(performed cfg fuel).expr] at ended
    rw [Eval.expression_reached]
    exact ended.within

end CellScript
