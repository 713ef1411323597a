import CellScript.Proofs.Alike.Heap
import Mathlib.Data.List.Nodup
import Mathlib.Data.List.Perm.Subperm

/-! Operators and printing cannot tell alike heaps apart: operators fail in the same way or give
alike values, and a value prints as the same text. -/
namespace CellScript

variable {σ : Code → Code → Prop} {R : Pairing} {h k : Heap} {l l' r r' v w : Value}

namespace Operators

/-- The same fault, or alike values in alike heaps. -/
inductive Alike (σ : Code → Code → Prop) (R : Pairing) :
    Except Fault (Value × Heap) → Except Fault (Value × Heap) → Prop where
  | ok {v w : Value} {h k : Heap} (values : Value.Alike σ R v w) (heaps : Heap.Alike σ R h k) :
    Alike σ R (.ok (v, h)) (.ok (w, k))
  | error (fault : Fault) : Alike σ R (.error fault) (.error fault)

theorem numbers?_eq (left : Value.Alike σ R l l') (right : Value.Alike σ R r r') :
    numbers? l r = numbers? l' r' := by
  cases left <;> cases right <;> rfl

theorem equal?_eq (left : Value.Alike σ R l l') (right : Value.Alike σ R r r') :
    equal? l r = equal? l' r' := by
  unfold equal?
  rw [numbers?_eq left right]
  cases left <;> cases right <;> rfl

theorem join?_rel (heaps : Heap.Alike σ R h k) (left : Value.Alike σ R l l')
    (right : Value.Alike σ R r r') : Option.Rel (Alike σ R) (join? h l r) (join? k l' r') := by
  cases left with
  | string s =>
    cases right with
    | string t => exact .some (.ok (.string _) heaps)
    | _ => exact .none
  | array a =>
    cases right with
    | array b =>
      have joined := heaps.newArray ((heaps.arrays a).append (heaps.arrays b))
      exact .some (.ok joined.1 joined.2)
    | _ => exact .none
  | tuple t =>
    cases right with
    | tuple u =>
      refine .some ?_
      have fields : Bindings.Alike R ((h.tuple t).fields ++ (h.tuple u).fields)
          ((k.tuple t).fields ++ (k.tuple u).fields) :=
        List.rel_append (heaps.tuples t).fields (heaps.tuples u).fields
      unfold Tuple.append?
      obtain ⟨here, there⟩ | ⟨name, here, there⟩ := Tuple.Alike.ofFields fields
      · rw [here, there]
        have made := heaps.newTuple (.ofDistinct fields)
        exact .ok made.1 made.2
      · rw [here, there]
        exact .error _
    | _ => exact .none
  | empty | int | real | bool | func => cases right <;> exact .none

theorem arithmetic_rel (heaps : Heap.Alike σ R h k) (op : Arithmetic) (n : Numbers) :
    Alike σ R ((arithmetic op n).map (·, h)) ((arithmetic op n).map (·, k)) := by
  cases n with
  | ints a b =>
    cases op with
    | add => exact .ok (.int _) heaps
    | subtract => exact .ok (.int _) heaps
    | multiply => exact .ok (.int _) heaps
    | divide =>
      simp only [arithmetic]
      split
      · exact .error _
      · exact .ok (.int _) heaps
  | reals a b => cases op <;> exact .ok (.real _) heaps

theorem calculate_rel (heaps : Heap.Alike σ R h k) (left : Value.Alike σ R l l')
    (right : Value.Alike σ R r r') (a : Arithmetic) (op : BinaryOp) : Alike σ R
      (match numbers? l r with
        | some n => (arithmetic a n).map (·, h)
        | none => .error (.binaryUndefined op l.type r.type))
      (match numbers? l' r' with
        | some n => (arithmetic a n).map (·, k)
        | none => .error (.binaryUndefined op l'.type r'.type)) := by
  rw [numbers?_eq left right, left.type_eq, right.type_eq]
  cases numbers? l' r' with
  | none => exact .error _
  | some n => exact arithmetic_rel heaps a n

theorem order_rel (heaps : Heap.Alike σ R h k) (left : Value.Alike σ R l l')
    (right : Value.Alike σ R r r') (c : Comparison) (op : BinaryOp) : Alike σ R
      (match numbers? l r with
        | some n => .ok (.bool (compare c n), h)
        | none => .error (.binaryUndefined op l.type r.type))
      (match numbers? l' r' with
        | some n => .ok (.bool (compare c n), k)
        | none => .error (.binaryUndefined op l'.type r'.type)) := by
  rw [numbers?_eq left right, left.type_eq, right.type_eq]
  cases numbers? l' r' with
  | none => exact .error _
  | some n => exact .ok (.bool _) heaps

theorem equality_rel (heaps : Heap.Alike σ R h k) (left : Value.Alike σ R l l')
    (right : Value.Alike σ R r r') (f : Bool → Bool) (op : BinaryOp) : Alike σ R
      (match equal? l r with
        | some b => .ok (.bool (f b), h)
        | none => .error (.binaryUndefined op l.type r.type))
      (match equal? l' r' with
        | some b => .ok (.bool (f b), k)
        | none => .error (.binaryUndefined op l'.type r'.type)) := by
  rw [equal?_eq left right, left.type_eq, right.type_eq]
  cases equal? l' r' with
  | none => exact .error _
  | some b => exact .ok (.bool _) heaps

theorem logic_rel (heaps : Heap.Alike σ R h k) (left : Value.Alike σ R l l')
    (right : Value.Alike σ R r r') {op : BinaryOp} (logical : op = .and ∨ op = .or ∨ op = .xor) :
    Alike σ R (binary op l r h) (binary op l' r' k) := by
  cases left with
  | bool a =>
    cases right with
    | bool b => obtain rfl | rfl | rfl := logical <;> exact .ok (.bool _) heaps
    | _ => obtain rfl | rfl | rfl := logical <;> exact .error _
  | _ => cases right <;> obtain rfl | rfl | rfl := logical <;> exact .error _

theorem binary_rel (heaps : Heap.Alike σ R h k) (left : Value.Alike σ R l l')
    (right : Value.Alike σ R r r') (op : BinaryOp) :
    Alike σ R (binary op l r h) (binary op l' r' k) := by
  cases op with
  | add =>
    change Alike σ R ((join? h l r).getD _) ((join? k l' r').getD _)
    have joined := join?_rel heaps left right
    generalize join? h l r = here at joined
    generalize join? k l' r' = there at joined
    cases joined with
    | none => exact calculate_rel heaps left right .add .add
    | some both => exact both
  | subtract => exact calculate_rel heaps left right .subtract .subtract
  | multiply => exact calculate_rel heaps left right .multiply .multiply
  | divide => exact calculate_rel heaps left right .divide .divide
  | less => exact order_rel heaps left right .less .less
  | lessEqual => exact order_rel heaps left right .lessEqual .lessEqual
  | greater => exact order_rel heaps left right .greater .greater
  | greaterEqual => exact order_rel heaps left right .greaterEqual .greaterEqual
  | equal => exact equality_rel heaps left right id .equal
  | notEqual => exact equality_rel heaps left right not .notEqual
  | and => exact logic_rel heaps left right (.inl rfl)
  | or => exact logic_rel heaps left right (.inr (.inl rfl))
  | xor => exact logic_rel heaps left right (.inr (.inr rfl))

/-- The same operators, waiting behind alike left operands. -/
def Pending.Alike (σ : Code → Code → Prop) (R : Pairing) : Pending → Pending → Prop :=
  List.Forall₂ fun x y => Value.Alike σ R x.1 y.1 ∧ x.2 = y.2

/-- The same fault, or alike applications left, with an alike right operand in alike heaps. -/
inductive Applied (σ : Code → Code → Prop) (R : Pairing) :
    Except Fault (Pending × Value × Heap) → Except Fault (Pending × Value × Heap) → Prop where
  | ok {p q : Pending} {v w : Value} {h k : Heap} (pending : Pending.Alike σ R p q)
      (values : Value.Alike σ R v w) (heaps : Heap.Alike σ R h k) :
    Applied σ R (.ok (p, v, h)) (.ok (q, w, k))
  | error (fault : Fault) : Applied σ R (.error fault) (.error fault)

theorem applyWhile_rel {p q : Pending} (pending : Pending.Alike σ R p q)
    (values : Value.Alike σ R v w) (heaps : Heap.Alike σ R h k) (ready : BinaryOp → Bool) :
    Applied σ R (applyWhile ready p v h) (applyWhile ready q w k) := by
  induction pending generalizing v w h k with
  | nil => exact .ok .nil values heaps
  | @cons x y _ _ head rest ih =>
    obtain ⟨left, op⟩ := x
    obtain ⟨left', op'⟩ := y
    obtain ⟨lefts, rfl⟩ := head
    unfold applyWhile
    split
    · have step := binary_rel heaps lefts values op
      generalize binary op left v h = here at step
      generalize binary op left' w k = there at step
      cases step with
      | ok values heaps => exact ih values heaps
      | error fault => exact .error fault
    · exact .ok (.cons ⟨lefts, rfl⟩ rest) values heaps

theorem reduceFrom_rel {xs ys : List (Word BinaryOp × Value)}
    (operands : List.Forall₂ (fun x y => x.1 = y.1 ∧ Value.Alike σ R x.2 y.2) xs ys)
    {p q : Pending} (pending : Pending.Alike σ R p q) (values : Value.Alike σ R v w)
    (heaps : Heap.Alike σ R h k) (assoc : Associativity) :
    Alike σ R (reduceFrom assoc xs p v h) (reduceFrom assoc ys q w k) := by
  induction operands generalizing p q v w h k with
  | nil =>
    unfold reduceFrom
    have step := applyWhile_rel pending values heaps fun _ => true
    generalize applyWhile (fun _ => true) p v h = here at step
    generalize applyWhile (fun _ => true) q w k = there at step
    cases step with
    | ok _ values heaps => exact .ok values heaps
    | error fault => exact .error fault
  | @cons x y _ _ head _ ih =>
    obtain ⟨op, next⟩ := x
    obtain ⟨_, next'⟩ := y
    obtain ⟨rfl, nexts⟩ := head
    cases op with
    | other _ _ => exact .error _
    | known op =>
      unfold reduceFrom
      have step := applyWhile_rel pending values heaps fun p => yields assoc p op
      generalize applyWhile (fun p => yields assoc p op) p v h = here at step
      generalize applyWhile (fun p => yields assoc p op) q w k = there at step
      cases step with
      | ok pending values heaps => exact ih (.cons ⟨values, rfl⟩ pending) nexts heaps
      | error fault => exact .error fault

theorem reduce_rel {vs ws : List Value} (operands : List.Forall₂ (Value.Alike σ R) vs ws)
    (values : Value.Alike σ R v w) (heaps : Heap.Alike σ R h k) (assoc : Associativity)
    (ops : List (Word BinaryOp)) :
    Alike σ R (reduce assoc v (ops.zip vs) h) (reduce assoc w (ops.zip ws) k) := by
  refine reduceFrom_rel ?_ .nil values heaps assoc
  induction operands generalizing ops with
  | nil => simp only [List.zip_nil_right, List.Forall₂.nil]
  | cons head _ ih =>
    cases ops with
    | nil => exact .nil
    | cons op ops => exact .cons ⟨rfl, head⟩ (ih ops)

/-- The same fault, or alike values. -/
inductive Single (σ : Code → Code → Prop) (R : Pairing) :
    Except Fault Value → Except Fault Value → Prop where
  | ok {v w : Value} (values : Value.Alike σ R v w) : Single σ R (.ok v) (.ok w)
  | error (fault : Fault) : Single σ R (.error fault) (.error fault)

theorem unary_rel (values : Value.Alike σ R v w) (op : Word UnaryOp) :
    Single σ R (unary op v) (unary op w) := by
  cases op with
  | other word _ =>
    cases values <;> exact .error _
  | known op =>
    cases values with
    | int n =>
      cases op with
      | plus => exact .ok (.int _)
      | minus => exact .ok (.int _)
      | not => exact .error _
    | real x =>
      cases op with
      | plus => exact .ok (.real _)
      | minus => exact .ok (.real _)
      | not => exact .error _
    | bool b =>
      cases op with
      | not => exact .ok (.bool _)
      | plus | minus => exact .error _
    | empty | string | array | tuple | func => cases op <;> exact .error _

theorem operand_rel (values : Value.Alike σ R v w) (op : Option (Word UnaryOp))
    (test : Option (Word TypeName)) : Single σ R (operand op test v) (operand op test w) := by
  have plain {x y : Value} (alike : Value.Alike σ R x y) :
      Single σ R (operand op none x) (operand op none y) := by
    cases op with
    | none => exact .ok alike
    | some op => exact unary_rel alike op
  cases test with
  | none => exact plain values
  | some asked =>
    have same : typeTest asked v = typeTest asked w := by
      unfold typeTest
      rw [values.type_eq]
    change Single σ R (operand op none (.bool (typeTest asked v)))
      (operand op none (.bool (typeTest asked w)))
    rw [same]
    exact plain (.bool _)

end Operators

/-! ### Printing -/

namespace Heap

theorem window_rel {a b : SparseArray CellRef} (alike : SparseArray.Alike R a b) :
    List.Forall₂ (Option.Rel R.pairs) a.window b.window := by
  unfold SparseArray.window SparseArray.first? SparseArray.length
  rw [alike.keys]
  cases b.keys.head?.map (·.1) with
  | none => exact .nil
  | some key =>
    dsimp only
    rw [List.forall₂_map_left_iff, List.forall₂_map_right_iff, List.forall₂_same]
    exact fun i _ => alike.get? _

theorem forall₂_map_eq {α β γ : Type} {P : α → β → Prop} {f : α → γ} {g : β → γ}
    (each : ∀ a b, P a b → f a = g b) {xs : List α} {ys : List β} (related : List.Forall₂ P xs ys) :
    xs.map f = ys.map g := by
  induction related with
  | nil => rfl
  | cons head _ ih => rw [List.map_cons, List.map_cons, each _ _ head, ih]

theorem renderWith_eq (heaps : Heap.Alike σ R h k) (values : Value.Alike σ R v w)
    {f g : CellRef → Text} (cells : ∀ c d, R.pairs c d → f c = g d) :
    h.renderWith f v = k.renderWith g w := by
  cases values with
  | array a =>
    simp only [renderWith]
    congr 3
    refine forall₂_map_eq ?_ (window_rel (heaps.arrays a))
    rintro _ _ (paired | _)
    · exact cells _ _ paired
    · rfl
  | tuple t =>
    simp only [renderWith]
    congr 3
    refine forall₂_map_eq ?_ (heaps.tuples t).fields
    rintro ⟨name, c⟩ ⟨_, d⟩ ⟨rfl, paired⟩
    rw [cells c d paired]
  | func closures => simp only [renderWith, closures.params]
  | empty | int | real | bool | string => rfl

theorem forall₂_partner {α β : Type} {P : α → β → Prop} {xs : List α} {ys : List β}
    (related : List.Forall₂ P xs ys) {x : α} (member : x ∈ xs) : ∃ y, y ∈ ys ∧ P x y := by
  induction related with
  | nil => cases member
  | cons head _ ih =>
    obtain rfl | member := List.mem_cons.mp member
    · exact ⟨_, List.mem_cons_self, head⟩
    · obtain ⟨y, there, related⟩ := ih member
      exact ⟨y, List.mem_cons_of_mem _ there, related⟩

theorem mem_iff {path path' : List CellRef} (paths : List.Forall₂ R.pairs path path')
    {c d : CellRef} (paired : R.pairs c d) : c ∈ path ↔ d ∈ path' := by
  have unique : Relator.BiUnique R.pairs :=
    ⟨fun _ _ _ first second => R.right_unique first second,
      fun _ _ _ first second => R.left_unique first second⟩
  exact List.rel_mem unique paired paths

/-- A path through as many different cells as there are goes through all of them. -/
theorem mem_of_full {path : List CellRef} (distinct : path.Nodup) {size : Nat}
    (inside : ∀ c ∈ path, c.index < size) (full : size ≤ path.length) {c : CellRef}
    (bound : c.index < size) : c ∈ path := by
  have injective : Function.Injective CellRef.index := by
    rintro ⟨i⟩ ⟨j⟩ same
    exact congrArg CellRef.mk same
  have covered : path.map CellRef.index ⊆ List.range size := by
    intro i member
    obtain ⟨d, there, rfl⟩ := List.mem_map.mp member
    exact List.mem_range.mpr (inside d there)
  have all := (List.subperm_of_subset (distinct.map injective) covered).perm_of_length_le
    (by simpa using full)
  obtain ⟨d, there, same⟩ := List.mem_map.mp (all.mem_iff.mpr (List.mem_range.mpr bound))
  exact injective same ▸ there

/-- The number of levels left matters only once every cell is on the path, and then the next cell
is cut off in any case. -/
theorem renderCell_eq (heaps : Heap.Alike σ R h k) {levels levels' : Nat} {path path' : List CellRef}
    (paths : List.Forall₂ R.pairs path path') (distinct : path.Nodup) (distinct' : path'.Nodup)
    (enough : h.cells.size ≤ levels + path.length) (enough' : k.cells.size ≤ levels' + path'.length)
    {c d : CellRef} (paired : R.pairs c d) :
    h.renderCell levels path c = k.renderCell levels' path' d := by
  induction levels generalizing levels' path path' c d with
  | zero =>
    have seen : c ∈ path := mem_of_full distinct (fun c member => by
      obtain ⟨d, _, paired⟩ := forall₂_partner paths member
      exact heaps.left_bound paired) (by omega) (heaps.left_bound paired)
    have seen' : d ∈ path' := (mem_iff paths paired).mp seen
    cases levels' with
    | zero => rfl
    | succ levels' => simp [renderCell, seen']
  | succ levels ih =>
    by_cases seen : c ∈ path
    · have seen' : d ∈ path' := (mem_iff paths paired).mp seen
      cases levels' with
      | zero => simp [renderCell, seen]
      | succ levels' => simp [renderCell, seen, seen']
    · have unseen' : d ∉ path' := fun seen' => seen ((mem_iff paths paired).mpr seen')
      cases levels' with
      | zero =>
        have seen' : d ∈ path' := mem_of_full distinct' (fun d member => by
          obtain ⟨c, _, paired⟩ := forall₂_partner paths.flip member
          exact heaps.right_bound paired) (by omega) (heaps.right_bound paired)
        exact absurd seen' unseen'
      | succ levels' =>
        simp only [renderCell, List.contains_eq_mem, seen, unseen', decide_false, Bool.false_eq_true,
          if_false]
        refine renderWith_eq heaps (heaps.contents paired) fun x y pairedItems => ?_
        refine ih (.cons paired paths) (List.nodup_cons.mpr ⟨seen, distinct⟩)
          (List.nodup_cons.mpr ⟨unseen', distinct'⟩) ?_ ?_ pairedItems
        · simp only [List.length_cons]
          omega
        · simp only [List.length_cons]
          omega

theorem render_eq (heaps : Heap.Alike σ R h k) (values : Value.Alike σ R v w) :
    h.render v = k.render w :=
  renderWith_eq heaps values fun _ _ paired =>
    renderCell_eq heaps .nil .nil .nil (Nat.le_refl _) (Nat.le_refl _) paired

end Heap

end CellScript
