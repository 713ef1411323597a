import CellScript.Proofs.Checking.Vetted

/-! Where a key can turn out to be given twice. Of all operators only a sum of two tuples fails for
that reason, so the fault needs a sum among the operators of an expression or an assignment that
adds. No operator touches a cell or makes a function. -/
namespace CellScript

/-- A fault that the checks do not try to rule out, or a key given twice where tuples are joined. -/
def Fault.Joining (joins : Prop) (fault : Fault) : Prop :=
  fault.unchecked = true ∨ joins ∧ ∃ name, fault = .duplicateKey name

theorem Fault.Joining.mono {joins joins' : Prop} {fault : Fault} (joining : fault.Joining joins)
    (more : joins → joins') : fault.Joining joins' :=
  joining.imp_right fun duplicate => ⟨more duplicate.1, duplicate.2⟩

namespace Operators

variable {h : Heap} {l r : Value}

/-- A result that is no function, in the cells as they were, or a fault that is no matter of the
checks. -/
def Usual (h : Heap) : Except Fault (Value × Heap) → Prop :=
  Gives (fun r => r.2.cells = h.cells ∧ ∀ f, r.1 ≠ .func f) fun fault => fault.unchecked = true

theorem usual_ok {v : Value} {h' : Heap} (cells : h'.cells = h.cells) (plain : ∀ f, v ≠ .func f) :
    Usual h (.ok (v, h')) := .ok ⟨cells, plain⟩

theorem arithmetic_usual (op : Arithmetic) (n : Numbers) :
    Usual h ((arithmetic op n).map (·, h)) := by
  cases n with
  | ints a b =>
    cases op with
    | divide =>
      simp only [arithmetic]
      split
      · exact .error rfl
      · exact usual_ok rfl nofun
    | _ => exact usual_ok rfl nofun
  | reals a b => cases op <;> exact usual_ok rfl nofun

theorem calculate_usual (a : Arithmetic) (op : BinaryOp) : Usual h
    (match numbers? l r with
      | some n => (arithmetic a n).map (·, h)
      | none => .error (.binaryUndefined op l.type r.type)) := by
  cases numbers? l r with
  | none => exact .error rfl
  | some n => exact arithmetic_usual a n

theorem order_usual (c : Comparison) (op : BinaryOp) : Usual h
    (match numbers? l r with
      | some n => .ok (.bool (compare c n), h)
      | none => .error (.binaryUndefined op l.type r.type)) := by
  cases numbers? l r with
  | none => exact .error rfl
  | some n => exact usual_ok rfl nofun

theorem equality_usual (f : Bool → Bool) (op : BinaryOp) : Usual h
    (match equal? l r with
      | some b => .ok (.bool (f b), h)
      | none => .error (.binaryUndefined op l.type r.type)) := by
  cases equal? l r with
  | none => exact .error rfl
  | some b => exact usual_ok rfl nofun

theorem logic_usual {op : BinaryOp} (logical : op = .and ∨ op = .or ∨ op = .xor) :
    Usual h (binary op l r h) := by
  cases l with
  | bool a =>
    cases r with
    | bool b => obtain rfl | rfl | rfl := logical <;> exact usual_ok rfl nofun
    | _ => obtain rfl | rfl | rfl := logical <;> exact .error rfl
  | _ => obtain rfl | rfl | rfl := logical <;> exact .error rfl

/-- Two tuples that have a name in common, joined by a sum. -/
def Clash (h : Heap) (op : BinaryOp) (l r : Value) (name : Text) : Prop :=
  op = .add ∧ ∃ t u, l = .tuple t ∧ r = .tuple u ∧ (h.tuple t).append? (h.tuple u) = .error name

theorem join?_usual {joined : Except Fault (Value × Heap)} (joins : join? h l r = some joined) :
    Usual h joined ∨ ∃ name, Clash h .add l r name ∧ joined = .error (.duplicateKey name) := by
  unfold join? at joins
  split at joins
  · cases joins
    exact .inl (usual_ok rfl nofun)
  · cases joins
    exact .inl (usual_ok rfl nofun)
  next t u =>
    cases appended : (h.tuple t).append? (h.tuple u) with
    | ok v =>
      rw [appended] at joins
      cases joins
      exact .inl (usual_ok rfl nofun)
    | error name =>
      rw [appended] at joins
      cases joins
      exact .inr ⟨name, ⟨rfl, t, u, rfl, rfl, appended⟩, rfl⟩
  · cases joins

/-- An operator between two values complains about a key only when it joins two tuples that have
the key both. -/
theorem binary_usual (op : BinaryOp) (l r : Value) (h : Heap) :
    Usual h (binary op l r h) ∨
      ∃ name, Clash h op l r name ∧ binary op l r h = .error (.duplicateKey name) := by
  cases op with
  | add =>
    change Usual h ((join? h l r).getD _) ∨ ∃ name, _ ∧ (join? h l r).getD _ = _
    cases joins : join? h l r with
    | none => exact .inl (calculate_usual .add .add)
    | some joined => exact join?_usual joins
  | subtract => exact .inl (calculate_usual .subtract .subtract)
  | multiply => exact .inl (calculate_usual .multiply .multiply)
  | divide => exact .inl (calculate_usual .divide .divide)
  | less => exact .inl (order_usual .less .less)
  | lessEqual => exact .inl (order_usual .lessEqual .lessEqual)
  | greater => exact .inl (order_usual .greater .greater)
  | greaterEqual => exact .inl (order_usual .greaterEqual .greaterEqual)
  | equal => exact .inl (equality_usual id .equal)
  | notEqual => exact .inl (equality_usual not .notEqual)
  | and => exact .inl (logic_usual (.inl rfl))
  | or => exact .inl (logic_usual (.inr (.inl rfl)))
  | xor => exact .inl (logic_usual (.inr (.inr rfl)))

theorem binary_duplicateKey {op : BinaryOp} {name : Text} :
    binary op l r h = .error (.duplicateKey name) ↔ Clash h op l r name := by
  constructor
  · intro failed
    rcases binary_usual op l r h with usual | ⟨name', clash, failed'⟩
    · rw [failed] at usual
      cases usual with
      | error unchecked => cases unchecked
    · rw [failed] at failed'
      cases failed'
      exact clash
  · rintro ⟨rfl, t, u, rfl, rfl, appended⟩
    simp only [binary, join?, appended, Option.getD_some]

/-- Applying pending operators keeps the cells and a property of the latest operand that all values
but functions have. -/
theorem applyWhile_kept {P : Value → Prop} (plain : ∀ v, (∀ f, v ≠ .func f) → P v)
    (ready : BinaryOp → Bool) (pending : Pending) (right : Value) (h : Heap) (fits : P right) :
    Gives (fun r => r.1 ⊆ pending ∧ P r.2.1 ∧ r.2.2.cells = h.cells)
      (Fault.Joining (.add ∈ pending.map (·.2))) (applyWhile ready pending right h) := by
  induction pending generalizing right h with
  | nil => exact .ok ⟨List.Subset.refl _, fits, rfl⟩
  | cons e pending ih =>
    obtain ⟨left, op⟩ := e
    unfold applyWhile
    split
    · rcases binary_usual op left right h with usual | ⟨name, clash, failed⟩
      · generalize binary op left right h = r at usual
        cases usual with
        | ok result =>
          refine (ih _ _ (plain _ result.2)).mono (fun r kept => ?_) fun fault joining => ?_
          · exact ⟨List.subset_cons_of_subset _ kept.1, kept.2.1, kept.2.2.trans result.1⟩
          · exact joining.mono fun member => List.mem_cons_of_mem _ member
        | error unchecked => exact .error (.inl unchecked)
      · rw [failed]
        refine .error (.inr ⟨?_, name, rfl⟩)
        rw [List.map_cons, clash.1]
        exact List.mem_cons_self
    · exact .ok ⟨List.Subset.refl _, fits, rfl⟩

theorem reduceFrom_kept {P : Value → Prop} (plain : ∀ v, (∀ f, v ≠ .func f) → P v)
    (assoc : Associativity) (rest : List (Word BinaryOp × Value)) (pending : Pending) (v : Value)
    (h : Heap) (fits : P v) (others : ∀ e ∈ rest, P e.2) :
    Gives (fun r => P r.1 ∧ r.2.cells = h.cells)
      (Fault.Joining (.add ∈ pending.map (·.2) ∨ .known .add ∈ rest.map (·.1)))
      (reduceFrom assoc rest pending v h) := by
  induction rest generalizing pending v h with
  | nil =>
    have applied := applyWhile_kept plain (fun _ => true) pending v h fits
    unfold reduceFrom
    generalize applyWhile (fun _ => true) pending v h = r at applied
    cases applied with
    | ok kept => exact .ok kept.2
    | error joining => exact .error (joining.mono .inl)
  | cons e rest ih =>
    obtain ⟨op, next⟩ := e
    cases op with
    | other op _ => exact .error (.inl rfl)
    | known op =>
      have applied := applyWhile_kept plain (fun p => yields assoc p op) pending v h fits
      unfold reduceFrom
      generalize applyWhile (fun p => yields assoc p op) pending v h = r at applied
      cases applied with
      | error joining => exact .error (joining.mono .inl)
      | @ok r kept =>
        obtain ⟨left, w, h'⟩ := r
        have later := ih ((w, op) :: left) next h' (others _ List.mem_cons_self)
          fun e member => others e (List.mem_cons_of_mem _ member)
        refine later.mono (fun r result => ⟨result.1, result.2.trans kept.2.2⟩) fun fault joining => ?_
        refine joining.mono fun sum => ?_
        rcases sum with waiting | sum
        · rcases List.mem_cons.mp waiting with same | waiting
          · exact .inr (same ▸ List.mem_cons_self)
          · exact .inl (List.map_subset _ kept.1 waiting)
        · exact .inr (List.mem_cons_of_mem _ sum)

/-- Reducing operands gives one of them or a value that is no function, and complains about a key
only if there is a sum. -/
theorem reduce_kept {P : Value → Prop} (plain : ∀ v, (∀ f, v ≠ .func f) → P v)
    (assoc : Associativity) (first : Value) (ops : List (Word BinaryOp)) (rest : List Value)
    (h : Heap) (fits : P first) (others : ∀ v ∈ rest, P v) :
    Gives (fun r => P r.1 ∧ r.2.cells = h.cells) (Fault.Joining (.known .add ∈ ops))
      (reduce assoc first (ops.zip rest) h) := by
  have operands : ∀ e ∈ ops.zip rest, P e.2 := fun e member => others _ (List.of_mem_zip member).2
  refine (reduceFrom_kept plain assoc (ops.zip rest) [] first h fits operands).mono
    (fun _ kept => kept) fun fault joining => joining.mono fun sum => ?_
  rcases sum with waiting | sum
  · exact absurd waiting List.not_mem_nil
  · obtain ⟨e, member, same⟩ := List.mem_map.mp sum
    exact same ▸ (List.of_mem_zip member).1

theorem unary_kept (op : Word UnaryOp) (v : Value) :
    Gives (fun w => ∀ f, w ≠ .func f) (fun fault => fault.unchecked = true) (unary op v) := by
  unfold unary
  split <;> first | exact .ok nofun | exact .error rfl

/-- An operand without operators of its own keeps its value; otherwise it is no function. -/
theorem operand_kept {P : Value → Prop} (plain : ∀ v, (∀ f, v ≠ .func f) → P v)
    (op : Option (Word UnaryOp)) (test : Option (Word TypeName)) (v : Value) (fits : P v) :
    Gives P (fun fault => fault.unchecked = true) (operand op test v) := by
  unfold operand
  cases op with
  | none =>
    cases test with
    | none => exact .ok fits
    | some asked => exact .ok (plain _ nofun)
  | some op => exact (unary_kept op _).mono plain fun _ unchecked => unchecked

end Operators

namespace Run.Harmless

open Knowledge

variable {k : Knowledge} {v : Value}

theorem binary (op : BinaryOp) (l r : Value) (span : Span) :
    Harmless k (Fault.Joining (op = .add)) k.TrustsValue
      (Run.onHeap span (Operators.binary op l r)) := by
  refine onHeap (fun h => ?_) span
  rcases Operators.binary_usual op l r h with usual | ⟨name, clash, failed⟩
  · exact usual.mono (fun _ kept => ⟨trustsValue_of_ne kept.2, kept.1⟩) fun _ => .inl
  · rw [failed]
    exact .error (.inr ⟨clash.1, name, rfl⟩)

theorem assignTo (value : k.TrustsValue v) (span : Span) (target : CellRef) (op : Word AssignOp) :
    Harmless k (Fault.Joining (op = .known .add)) (fun _ => True)
      (Eval.assignTo span target op v) := by
  cases op with
  | other w _ => exact fail (.inl rfl) span
  | known op =>
    cases op with
    | set => exact setCell value target
    | add =>
      refine bind (contents target) fun old _ => bind ?_ fun new fresh => setCell fresh target
      exact (binary .add old v span).mono fun fault joining => joining.mono fun _ => rfl
    | subtract =>
      refine bind (contents target) fun old _ => bind ?_ fun new fresh => setCell fresh target
      exact (binary .subtract old v span).mono fun fault joining => joining.mono nofun

end Run.Harmless

end CellScript
