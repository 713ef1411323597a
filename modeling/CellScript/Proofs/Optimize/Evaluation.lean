import CellScript.Proofs.Optimize.Constant
import CellScript.Proofs.Simulation.Steps

/-! What is known of a tree before it runs is what happens when it runs. A constant expression
gives a fresh cell with its value and an idle statement changes nothing; both may leave garbage in
the heap, which no alike machine can see. -/
namespace CellScript

/-! ### Operators on plain values -/

/-- Values without parts. -/
inductive Value.Plain : Value → Prop where
  | empty : Plain .empty
  | int (n : Int64) : Plain (.int n)
  | real (x : Float) : Plain (.real x)
  | bool (b : Bool) : Plain (.bool b)
  | string (t : Text) : Plain (.string t)

theorem Value.Plain.alike {v : Value} (plain : v.Plain) (σ : Code → Code → Prop) (R : Pairing) :
    Value.Alike σ R v v := by
  cases plain <;> constructor

namespace Operators

variable {l r v : Value}

/-- A computation that neither looks at the heap nor changes it. -/
def Steady (f : Heap → Except Fault (Value × Heap)) : Prop :=
  (∃ v, v.Plain ∧ ∀ h, f h = .ok (v, h)) ∨ ∃ fault, ∀ h, f h = .error fault

theorem calculate_steady (op : Arithmetic) (n : Numbers) :
    Steady fun h => (arithmetic op n).map (·, h) := by
  cases n with
  | reals l r => cases op <;> exact .inl ⟨_, .real _, fun _ => rfl⟩
  | ints l r =>
    cases op with
    | add | subtract | multiply => exact .inl ⟨_, .int _, fun _ => rfl⟩
    | divide =>
      simp only [arithmetic]
      split
      · exact .inr ⟨_, fun _ => rfl⟩
      · exact .inl ⟨_, .int _, fun _ => rfl⟩

theorem numbers_steady {f : Numbers → Heap → Except Fault (Value × Heap)}
    (each : ∀ n, Steady (f n)) (n : Option Numbers) (fault : Fault) :
    Steady fun h => match n with
      | some n => f n h
      | none => .error fault := by
  cases n with
  | none => exact .inr ⟨fault, fun _ => rfl⟩
  | some n => exact each n

theorem answer_steady (answer : Option Bool) (f : Bool → Bool) (fault : Fault) :
    Steady fun h => match answer with
      | some b => .ok (.bool (f b), h)
      | none => .error fault := by
  cases answer with
  | none => exact .inr ⟨fault, fun _ => rfl⟩
  | some b => exact .inl ⟨_, .bool _, fun _ => rfl⟩

theorem logic_steady (l r : Value) (f : Bool → Bool → Bool) (fault : Fault) :
    Steady fun h => match l, r with
      | .bool a, .bool b => .ok (.bool (f a b), h)
      | _, _ => .error fault := by
  cases l with
  | bool a =>
    cases r with
    | bool b => exact .inl ⟨_, .bool _, fun _ => rfl⟩
    | _ => exact .inr ⟨fault, fun _ => rfl⟩
  | _ => exact .inr ⟨fault, fun _ => rfl⟩

theorem sum_steady (left : l.Plain) (right : r.Plain) (fault : Fault) :
    Steady fun h => (join? h l r).getD (match numbers? l r with
      | some n => (arithmetic .add n).map (·, h)
      | none => .error fault) := by
  have calculated := numbers_steady (calculate_steady .add) (numbers? l r) fault
  cases left with
  | string s =>
    cases right with
    | string t => exact .inl ⟨_, .string _, fun _ => rfl⟩
    | _ => exact calculated
  | _ => cases right <;> exact calculated

theorem binary_steady (op : BinaryOp) (left : l.Plain) (right : r.Plain) :
    Steady (binary op l r) := by
  have compared (c : Comparison) (n : Numbers) :
      Steady fun h => .ok (.bool (compare c n), h) := .inl ⟨_, .bool _, fun _ => rfl⟩
  cases op with
  | add => exact sum_steady left right _
  | subtract => exact numbers_steady (calculate_steady .subtract) _ _
  | multiply => exact numbers_steady (calculate_steady .multiply) _ _
  | divide => exact numbers_steady (calculate_steady .divide) _ _
  | less => exact numbers_steady (compared .less) _ _
  | lessEqual => exact numbers_steady (compared .lessEqual) _ _
  | greater => exact numbers_steady (compared .greater) _ _
  | greaterEqual => exact numbers_steady (compared .greaterEqual) _ _
  | equal => exact answer_steady _ id _
  | notEqual => exact answer_steady _ not _
  | and => exact logic_steady l r _ _
  | or => exact logic_steady l r _ _
  | xor => exact logic_steady l r _ _

theorem applyWhile_steady (ready : BinaryOp → Bool) {pending : Pending}
    (waiting : ∀ x ∈ pending, x.1.Plain) (plain : v.Plain) :
    (∃ rest w, (∀ x ∈ rest, x.1.Plain) ∧ w.Plain ∧
      ∀ h, applyWhile ready pending v h = .ok (rest, w, h)) ∨
      ∃ fault, ∀ h, applyWhile ready pending v h = .error fault := by
  induction pending generalizing v with
  | nil => exact .inl ⟨[], v, waiting, plain, fun _ => rfl⟩
  | cons x pending ih =>
    obtain ⟨left, op⟩ := x
    simp only [applyWhile]
    split
    · obtain ⟨w, plain, value⟩ | ⟨fault, fails⟩ :=
        binary_steady op (waiting _ (List.mem_cons_self ..)) plain
      · simp only [value]
        exact ih (fun x inside => waiting x (List.mem_cons_of_mem _ inside)) plain
      · simp only [fails]
        exact .inr ⟨fault, fun _ => rfl⟩
    · exact .inl ⟨_, v, waiting, plain, fun _ => rfl⟩

theorem reduceFrom_steady (assoc : Associativity) {rest : List (Word BinaryOp × Value)}
    (values : ∀ x ∈ rest, x.2.Plain) {pending : Pending} (waiting : ∀ x ∈ pending, x.1.Plain)
    (plain : v.Plain) : Steady (reduceFrom assoc rest pending v) := by
  induction rest generalizing pending v with
  | nil =>
    unfold Steady reduceFrom
    obtain ⟨_, w, -, plain, value⟩ | ⟨fault, fails⟩ :=
      applyWhile_steady (fun _ => true) waiting plain
    · exact .inl ⟨w, plain, fun h => by rw [value]⟩
    · exact .inr ⟨fault, fun h => by rw [fails]⟩
  | cons x rest ih =>
    obtain ⟨op, next⟩ := x
    have later := fun x inside => values x (List.mem_cons_of_mem _ inside)
    cases op with
    | other op _ => exact .inr ⟨_, fun _ => rfl⟩
    | known op =>
      unfold Steady reduceFrom
      obtain ⟨waiting', w, plain', plain, value⟩ | ⟨fault, fails⟩ :=
        applyWhile_steady (fun p => yields assoc p op) waiting plain
      · simp only [value]
        refine ih later ?_ (values _ (List.mem_cons_self ..))
        exact List.forall_mem_cons.mpr ⟨plain, plain'⟩
      · simp only [fails]
        exact .inr ⟨fault, fun _ => rfl⟩

/-- Operators that have a value on one heap have it on every heap. -/
theorem reduce_of_plain {assoc : Associativity} {rest : List (Word BinaryOp × Value)} {first : Value}
    {h h' : Heap} (values : ∀ x ∈ rest, x.2.Plain) (plain : first.Plain)
    (reduced : reduce assoc first rest h = .ok (v, h')) :
    v.Plain ∧ ∀ k, reduce assoc first rest k = .ok (v, k) := by
  have steady : Steady (reduceFrom assoc rest [] first) := reduceFrom_steady assoc values nofun plain
  unfold reduce at reduced ⊢
  obtain ⟨w, plain', value⟩ | ⟨fault, fails⟩ := steady
  · rw [value] at reduced
    cases reduced
    exact ⟨plain', value⟩
  · rw [fails] at reduced
    cases reduced

theorem unary_plain {op : Word UnaryOp} {w : Value} (value : unary op v = .ok w) : w.Plain := by
  unfold unary at value
  split at value <;> cases value <;> constructor

theorem operand_plain {op : Option (Word UnaryOp)} {test : Option (Word TypeName)} {w : Value}
    (plain : v.Plain) (value : operand op test v = .ok w) : w.Plain := by
  cases op with
  | some op => exact unary_plain value
  | none =>
    cases test with
    | none =>
      cases value
      exact plain
    | some asked =>
      cases value
      exact .bool _

end Operators

/-! ### Garbage -/

/-- The machine with more cells, which nothing refers to yet. -/
def Machine.grow (m : Machine) (vs : List Value) : Machine :=
  { m with heap := { m.heap with cells := m.heap.cells ++ vs.toArray } }

namespace Machine

theorem grow_nil (m : Machine) : m.grow [] = m := by simp [grow]

theorem grow_grow (m : Machine) (vs ws : List Value) : (m.grow vs).grow ws = m.grow (vs ++ ws) := by
  simp [grow]

theorem grow_cons (m : Machine) (v : Value) (vs : List Value) :
    m.grow (v :: vs) = Machine.grow { m with heap := (m.heap.newCell v).2 } vs := by
  simp [grow, Heap.newCell]

theorem newCell_grow (m : Machine) (vs : List Value) (v : Value) :
    Run.newCell v (m.grow vs) = .ok ⟨m.heap.cells.size + vs.length⟩ (m.grow (vs ++ [v])) := by
  simp [Run.newCell, Heap.newCell, grow, ← Array.append_singleton]

theorem get_grow (m : Machine) (vs : List Value) (v : Value) :
    (m.grow (vs ++ [v])).heap.get ⟨m.heap.cells.size + vs.length⟩ = v := by
  simp [Heap.get, grow]

namespace Alike

variable {σ : Code → Code → Prop} {R : Pairing} {m n : Machine}

theorem grow_left (alike : Machine.Alike σ R m n) (vs : List Value) :
    Machine.Alike σ R (m.grow vs) n := by
  induction vs generalizing m with
  | nil =>
    rw [grow_nil]
    exact alike
  | cons v vs ih =>
    rw [grow_cons]
    exact ih (alike.withHeap le_rfl (alike.heap.newCell_left v))

theorem grow_right (alike : Machine.Alike σ R m n) (vs : List Value) :
    Machine.Alike σ R m (n.grow vs) :=
  (alike.flip.grow_left vs).flip

/-- Cells on top of garbage become partners. -/
theorem grow_cell (alike : Machine.Alike σ R m n) {v : Value} (plain : v.Plain)
    (vs ws : List Value) : ∃ S, R ≤ S ∧
      S.pairs ⟨m.heap.cells.size + vs.length⟩ ⟨n.heap.cells.size + ws.length⟩ ∧
      Machine.Alike σ S (m.grow (vs ++ [v])) (n.grow (ws ++ [v])) := by
  have grown := (alike.grow_left vs).grow_right ws
  obtain ⟨S, more, paired, heaps⟩ := grown.heap.newCell (plain.alike σ R)
  refine ⟨S, more, by simpa [Heap.newCell, grow] using paired, ?_⟩
  rw [← grow_grow, ← grow_grow, grow_cons, grow_cons, grow_nil, grow_nil]
  exact grown.withHeap more heaps

end Alike

end Machine

namespace Run

variable {α β : Type}

/-- Every large enough bound gives the same value and nothing else but garbage. -/
def Yields (x : Nat → Run α) (a : α) : Prop :=
  ∃ bound junk, ∀ k, bound ≤ k → ∀ m, x k m = .ok a (m.grow junk)

/-- Every large enough bound gives a fresh cell with the value, and garbage. -/
def Makes (x : Nat → Run CellRef) (v : Value) : Prop :=
  ∃ bound junk, ∀ k, bound ≤ k → ∀ m,
    x k m = .ok ⟨m.heap.cells.size + junk.length⟩ (m.grow (junk ++ [v]))

namespace Yields

theorem pure (a : α) : Yields (fun _ => Pure.pure a) a :=
  ⟨0, [], fun _ _ m => by rw [m.grow_nil]; rfl⟩

theorem shift {x : Nat → Run α} {a : α} (yields : Yields (fun k => x (k + 1)) a) : Yields x a := by
  obtain ⟨bound, junk, same⟩ := yields
  refine ⟨bound + 1, junk, fun k enough => ?_⟩
  obtain ⟨k, rfl⟩ : ∃ i, k = i + 1 := ⟨k - 1, by omega⟩
  exact same k (by omega)

theorem later {x : Nat → Run α} {a : α} (yields : Yields x a) : Yields (fun k => x (k + 1)) a := by
  obtain ⟨bound, junk, same⟩ := yields
  exact ⟨bound, junk, fun k enough => same (k + 1) (by omega)⟩

theorem bind {x : Nat → Run α} {f : Nat → α → Run β} {a : α} {b : β} (first : Yields x a)
    (rest : Yields (fun k => f k a) b) : Yields (fun k => x k >>= f k) b := by
  obtain ⟨bound, junk, same⟩ := first
  obtain ⟨bound', junk', same'⟩ := rest
  refine ⟨max bound bound', junk ++ junk', fun k enough m => ?_⟩
  change EStateM.bind (x k) (f k) m = _
  unfold EStateM.bind
  rw [same k (by omega)]
  have after := same' k (by omega) (m.grow junk)
  rw [Machine.grow_grow] at after
  exact after

theorem contents {x : Nat → Run CellRef} {v : Value} (makes : Makes x v) :
    Yields (fun k => x k >>= contents) v := by
  obtain ⟨bound, junk, same⟩ := makes
  refine ⟨bound, junk ++ [v], fun k enough m => ?_⟩
  change EStateM.bind (x k) Run.contents m = _
  unfold EStateM.bind
  rw [same k enough]
  dsimp only [Run.contents]
  rw [m.get_grow]

theorem bind_contents {x : Nat → Run CellRef} {v : Value} {f : Nat → Value → Run β} {b : β}
    (makes : Makes x v) (rest : Yields (fun k => f k v) b) :
    Yields (fun k => x k >>= fun c => Run.contents c >>= f k) b := by
  have both := (contents makes).bind rest
  simpa only [bind_assoc] using both

theorem onHeap (span : Span) {f : Heap → Except Fault (Value × Heap)} {v : Value}
    (steady : ∀ h, f h = .ok (v, h)) : Yields (fun _ => onHeap span f) v := by
  refine ⟨0, [], fun _ _ m => ?_⟩
  change Run.onHeap span f m = _
  unfold Run.onHeap
  rw [steady, m.grow_nil]

theorem newCell {x : Nat → Run Value} {v : Value} (yields : Yields x v) :
    Makes (fun k => x k >>= newCell) v := by
  obtain ⟨bound, junk, same⟩ := yields
  refine ⟨bound, junk, fun k enough m => ?_⟩
  change EStateM.bind (x k) Run.newCell m = _
  unfold EStateM.bind
  rw [same k enough]
  exact m.newCell_grow junk v

theorem inFrame {x : Nat → Run α} {a : α} (yields : Yields x a) (owner : Owner)
    (bindings : Bindings) : Yields (fun k => inFrame owner bindings (x k)) a := by
  obtain ⟨bound, junk, same⟩ := yields
  refine ⟨bound, junk, fun k enough m => ?_⟩
  change Run.inFrame owner bindings (x k) m = _
  unfold Run.inFrame
  rw [same k enough]
  simp [Machine.grow, Scopes.close, Scopes.openWith, Scopes.below?]

end Yields

theorem Makes.shift {x : Nat → Run CellRef} {v : Value} (makes : Makes (fun k => x (k + 1)) v) :
    Makes x v := by
  obtain ⟨bound, junk, same⟩ := makes
  refine ⟨bound + 1, junk, fun k enough => ?_⟩
  obtain ⟨k, rfl⟩ : ∃ i, k = i + 1 := ⟨k - 1, by omega⟩
  exact same k (by omega)

theorem Makes.of_newCell (v : Value) : Makes (fun _ => newCell v) v :=
  Yields.newCell (.pure v)

namespace Follows

variable {σ : Code → Code → Prop} {R : Pairing} {γ δ : Type} {Q : Pairing → α → β → Prop}

/-- Two constants with one value. -/
theorem makes {x y : Nat → Run CellRef} {v : Value} (plain : v.Plain) (here : Makes x v)
    (rising : ∀ n, Refines (x n) (x (n + 1))) (there : Makes y v) (n : Nat) :
    Follows σ R Pairing.pairs (x n) y := by
  intro S above m m' alike
  obtain ⟨bound, junk, same⟩ := here
  obtain ⟨bound', junk', same'⟩ := there
  obtain equal | out := Refines.of_le rising (Nat.le_max_left n bound) m
  · right
    rw [equal, same _ (Nat.le_max_right n bound)]
    obtain ⟨T, more, paired, machines⟩ := alike.grow_cell plain junk junk'
    exact ⟨T, more, _, ⟨bound', fun k enough => same' k enough m'⟩, .ok paired machines⟩
  · exact .inl out

theorem yields_left {x : Nat → Run γ} {c : γ} {f : γ → Run α} {y : Nat → Run β}
    (here : Yields x c) (rising : ∀ n, Refines (x n) (x (n + 1))) (n : Nat)
    (rest : Follows σ R Q (f c) y) : Follows σ R Q (x n >>= f) y := by
  intro S above m m' alike
  change (∃ m', EStateM.bind (x n) f m = _) ∨ ∃ T, S ≤ T ∧ ∃ r, _ ∧ Ended σ T Q (EStateM.bind (x n) f m) r
  unfold EStateM.bind
  obtain ⟨bound, junk, same⟩ := here
  obtain equal | ⟨m'', out⟩ := Refines.of_le rising (Nat.le_max_left n bound) m
  · rw [equal, same _ (Nat.le_max_right n bound)]
    exact rest S above _ _ (alike.grow_left junk)
  · rw [out]
    exact .inl ⟨m'', rfl⟩

theorem yields_right {x : Run α} {y : Nat → Run δ} {d : δ} {g : Nat → δ → Run β}
    (there : Yields y d) (rest : Follows σ R Q x fun k => g k d) :
    Follows σ R Q x fun k => y k >>= g k := by
  intro S above m m' alike
  obtain ⟨bound, junk, same⟩ := there
  obtain out | ⟨T, more, r, settles, ended⟩ := rest S above _ _ (alike.grow_right junk)
  · exact .inl out
  · exact .inr ⟨T, more, r, .bind_ok ⟨bound, fun k enough => same k enough m'⟩ settles, ended⟩

end Follows

end Run

namespace Optimize

open Run

/-! ### Constants and idle statements at work -/

theorem operandsConstant?_length {assoc : Associativity} {xs : List Operand} {vs : List Value}
    (known : operandsConstant? assoc xs = some vs) : vs.length = xs.length := by
  induction xs generalizing vs with
  | nil =>
    cases known
    rfl
  | cons x xs ih =>
    simp only [operandsConstant?, Option.bind_eq_bind, Option.bind_eq_some_iff] at known
    obtain ⟨v, -, ws, rest, same⟩ := known
    cases same
    exact congrArg (· + 1) (ih rest)

theorem literal_makes (cfg : Settings) {l : Literal} {v : Value} (known : scalarValue? l = some v) :
    v.Plain ∧ Makes (fun k => Eval.literal cfg k l) v := by
  cases l with
  | integer | real | boolean | string | empty =>
    cases known
    exact ⟨by constructor, .shift (.of_newCell _)⟩
  | missing | array | tuple | function | lambda => cases known

mutual

theorem expr_makes (cfg : Settings) :
    ∀ (e : Expr) {v : Value}, exprConstant? cfg.associativity e = some v →
      v.Plain ∧ Makes (fun k => Eval.expr cfg k e) v
  | .missing, v, known => by cases known
  | .mk span [] ops, v, known => by cases known
  | .mk span (x :: xs) ops, v, known => by
    simp only [exprConstant?, Option.bind_eq_bind, Option.bind_eq_some_iff] at known
    obtain ⟨first, here, rest, there, reduced⟩ := known
    have counts := operandsConstant?_length there
    obtain ⟨firstPlain, firstMakes⟩ := operand_makes cfg x here
    obtain ⟨restPlain, restYields⟩ := operands_yield cfg xs there
    split at reduced
    · cases reduced
    rename_i lengths
    split at reduced
    · rename_i w h computed
      cases reduced
      have plain : ∀ x ∈ ops.zip rest, x.2.Plain := fun x inside =>
        restPlain _ (List.of_mem_zip inside).2
      obtain ⟨vPlain, value⟩ := Operators.reduce_of_plain plain firstPlain computed
      refine ⟨vPlain, .shift ?_⟩
      have same : ¬ xs.length ≠ ops.length := by omega
      simp only [Eval.expr, if_neg same]
      cases xs with
      | nil =>
        cases there
        rw [List.zip_nil_right] at computed
        cases computed
        exact firstMakes
      | cons y ys =>
        have all := Yields.newCell (.bind_contents firstMakes
          (f := fun k first => do
            let rest ← (y :: ys).mapM fun x => do contents (← Eval.operand cfg k x)
            onHeap span (Operators.reduce cfg.associativity first (ops.zip rest)))
          (.bind restYields (.onHeap span value)))
        simp only [bind_assoc] at all
        exact all
    · cases reduced

theorem operands_yield (cfg : Settings) :
    ∀ (xs : List Operand) {vs : List Value}, operandsConstant? cfg.associativity xs = some vs →
      (∀ v ∈ vs, v.Plain) ∧
        Yields (fun k => xs.mapM fun x => do contents (← Eval.operand cfg k x)) vs
  | [], vs, known => by
    cases known
    exact ⟨nofun, .pure _⟩
  | x :: xs, vs, known => by
    simp only [operandsConstant?, Option.bind_eq_bind, Option.bind_eq_some_iff] at known
    obtain ⟨v, here, ws, there, same⟩ := known
    cases same
    obtain ⟨firstPlain, firstMakes⟩ := operand_makes cfg x here
    obtain ⟨restPlain, restYields⟩ := operands_yield cfg xs there
    refine ⟨List.forall_mem_cons.mpr ⟨firstPlain, restPlain⟩, ?_⟩
    simp only [List.mapM_cons]
    exact .bind (.contents firstMakes) (.bind restYields (.pure _))

theorem operand_makes (cfg : Settings) :
    ∀ (x : Operand) {v : Value}, operandConstant? cfg.associativity x = some v →
      v.Plain ∧ Makes (fun k => Eval.operand cfg k x) v
  | .mk span op p test, v, known => by
    simp only [operandConstant?, Option.bind_eq_bind, Option.bind_eq_some_iff] at known
    obtain ⟨w, inside, computed⟩ := known
    obtain ⟨plain, makes⟩ := primary_makes cfg p inside
    split at computed
    · rename_i u value
      cases computed
      refine ⟨Operators.operand_plain plain value, .shift ?_⟩
      simp only [Eval.operand]
      by_cases bare : (op.isNone && test.isNone) = true
      · simp only [Bool.and_eq_true, Option.isNone_iff_eq_none] at bare
        obtain ⟨rfl, rfl⟩ := bare
        cases value
        simpa using makes
      · have all := Yields.newCell (.bind_contents makes (f := fun _ w =>
          locate span (Operators.operand op test w)) (by rw [value]; exact .pure _))
        simpa only [if_neg bare, bind_assoc] using all
    · cases computed

theorem primary_makes (cfg : Settings) :
    ∀ (p : Primary) {v : Value}, primaryConstant? cfg.associativity p = some v →
      v.Plain ∧ Makes (fun k => Eval.primary cfg k p) v
  | .read _ _, v, known => by cases known
  | .ref _ _ _, v, known => by cases known
  | .literal _ l, v, known => by
    obtain ⟨plain, makes⟩ := literal_makes cfg known
    exact ⟨plain, .shift makes⟩
  | .paren _ inner, v, known => by
    obtain ⟨plain, makes⟩ := expr_makes cfg inner known
    exact ⟨plain, .shift makes⟩

end

theorem condition_yields (cfg : Settings) (construct : String) {e : Expr} {b : Bool}
    (known : exprConstant? cfg.associativity e = some (.bool b)) :
    Yields (fun k => Eval.condition cfg k construct e) b := by
  obtain ⟨-, makes⟩ := expr_makes cfg e known
  apply Yields.shift
  simp only [Eval.condition]
  exact .bind_contents makes (.pure b)

mutual

theorem statement_idles (cfg : Settings) :
    ∀ (s : Statement), idle cfg.associativity s = true →
      Yields (fun k => Eval.statement cfg k s) ()
  | .branch span condition yes no, idles => by
    apply Yields.shift
    simp only [Eval.statement]
    simp only [idle] at idles
    split at idles
    · exact .bind (condition_yields cfg "if" ‹_›) (by simpa using block_idles cfg yes idles)
    · exact .bind (condition_yields cfg "if" ‹_›) (by simpa using block_idles cfg no idles)
    · cases idles
  | .whileLoop span condition b, idles => by
    refine .shift (.shift ?_)
    simp only [idle] at idles
    split at idles
    · simp only [Eval.statement, whileHolds_succ]
      have holds := condition_yields cfg "while" (e := condition) (b := false) ‹_›
      exact .bind holds.later (.pure ())
    · cases idles
  | .block b, idles => .shift (block_idles cfg b idles)
  | .declare .., idles => by cases idles
  | .assign .., idles => by cases idles
  | .forLoop .., idles => by cases idles
  | .print .., idles => by cases idles
  | .ret .., idles => by cases idles
  | .brk _, idles => by cases idles
  | .cont _, idles => by cases idles

theorem statements_idle (cfg : Settings) :
    ∀ (ss : List Statement), idleAll cfg.associativity ss = true →
      Yields (fun k => ss.forM (Eval.statement cfg k)) ()
  | [], _ => .pure ()
  | s :: ss, idles => by
    simp only [idleAll, Bool.and_eq_true] at idles
    exact .bind (statement_idles cfg s idles.1) (statements_idle cfg ss idles.2)

theorem block_idles (cfg : Settings) :
    ∀ (b : Body), idleBody cfg.associativity b = true → Yields (fun k => Eval.block cfg k b) ()
  | .missing, _ => .shift (.pure ())
  | .mk span ss cleared, idles => by
    apply Yields.shift
    simp only [Eval.block]
    exact .inFrame (statements_idle cfg ss idles) _ _

end

end Optimize

end CellScript
