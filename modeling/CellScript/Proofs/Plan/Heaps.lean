import CellScript.Proofs.Plan
import CellScript.Proofs.Trace

/-! What acts do to the heap. Apart from the making of functions there are few ways: operators make
arrays and tuples, a fresh cell gets what was just made, a cell is written, a key is asked for. A
property of heaps that these keep is kept by every act. -/
namespace CellScript

open Run

namespace Operators

variable {h : Heap} {v : Value}

/-- What an operator gives has neither parts nor code, or refers to an array or tuple that was just
made, of cells or of two that were there. -/
inductive Fresh (h : Heap) : Value × Heap → Prop where
  | plain {v : Value} (plain : v.isScalar = true) : Fresh h (v, h)
  | array (cells : List CellRef) : Fresh h (h.newArray (.ofList cells))
  | sum (a b : ArrayRef) : Fresh h (h.newArray (h.array a ++ h.array b))
  | tuple {fields : List (Text × CellRef)} {t : Tuple CellRef}
      (distinct : Tuple.ofFields fields = .ok t) : Fresh h (h.newTuple t)

theorem arithmetic_scalar {op : Arithmetic} {n : Numbers} (ends : arithmetic op n = .ok v) :
    v.isScalar = true := by
  cases n with
  | ints l r =>
    cases op with
    | divide =>
      unfold arithmetic at ends
      dsimp only at ends
      split at ends <;> cases ends
      rfl
    | _ => cases ends; rfl
  | reals l r => cases op <;> cases ends <;> rfl

theorem join?_fresh {l r : Value} {result : Value × Heap}
    (joins : join? h l r = some (.ok result)) : Fresh h result := by
  unfold join? at joins
  split at joins
  · cases joins
    exact .plain rfl
  · cases joins
    exact .sum _ _
  · split at joins
    next appended =>
      cases joins
      exact .tuple appended
    next => cases joins
  · cases joins

theorem calculated_fresh {a : Arithmetic} {l r : Value} {fault : Fault} {result : Value × Heap}
    (ends : (match numbers? l r with
      | some n => (arithmetic a n).map (·, h)
      | none => .error fault) = .ok result) : Fresh h result := by
  split at ends
  next n _ =>
    cases value : arithmetic a n with
    | ok v =>
      rw [value] at ends
      cases ends
      exact .plain (arithmetic_scalar value)
    | error fault =>
      rw [value] at ends
      cases ends
  next => cases ends

theorem binary_fresh {op : BinaryOp} {l r : Value} {result : Value × Heap}
    (ends : binary op l r h = .ok result) : Fresh h result := by
  cases op with
  | add =>
    change (join? h l r).getD _ = _ at ends
    cases joins : join? h l r with
    | some joined =>
      rw [joins] at ends
      exact join?_fresh (joins.trans (congrArg some ends))
    | none =>
      rw [joins] at ends
      exact calculated_fresh ends
  | subtract | multiply | divide => exact calculated_fresh ends
  | less | lessEqual | greater | greaterEqual | equal | notEqual | and | or | xor =>
    unfold binary at ends
    dsimp only at ends
    split at ends <;> cases ends
    exact .plain rfl

theorem operand_scalar {op : Option (Word UnaryOp)} {test : Option (Word TypeName)}
    (given : (op.isNone && test.isNone) = false) {v w : Value}
    (ends : operand op test v = .ok w) : w.isScalar = true := by
  unfold operand at ends
  cases op with
  | some op =>
    have scalar {u : Value} (ends : unary op u = .ok w) : w.isScalar = true := by
      unfold unary at ends
      split at ends <;> cases ends <;> rfl
    cases test <;> exact scalar ends
  | none =>
    cases test with
    | some asked =>
      cases ends
      rfl
    | none => cases given

end Operators

/-- A property of heaps that all keep which acts do to the heap, the making of functions apart. -/
structure Heap.Lasting (K : Heap → Prop) : Prop where
  made {h : Heap} {result : Value × Heap} : K h → Operators.Fresh h result → K result.2
  held {h : Heap} {result : Value × Heap} :
    K h → Operators.Fresh h result → K (result.2.newCell result.1).2
  written {h : Heap} {result : Value × Heap} (c : CellRef) :
    K h → Operators.Fresh h result → K (result.2.set c result.1)
  assigned {h : Heap} (c d : CellRef) : K h → K (h.set c (h.get d))
  slot {h : Heap} (a : ArrayRef) (key : Int64) : K h → K (h.slot a key).2

/-- The function that an act makes on a machine. -/
def Act.made? : {α : Type} → Act α → Machine → Option Closure
  | _, .function span params code, m => some ⟨span, params, code, m.scopes.snapshot⟩
  | _, .declareFunction name span params code, m =>
    some ⟨span, params, code, m.scopes.snapshot.set name ⟨m.heap.cells.size⟩⟩
  | _, _, _ => none

theorem Run.takeWord_heap (span : Span) (what : Text) (m : Machine) :
    (reached (takeWord span what m)).heap = m.heap := by
  unfold takeWord
  dsimp only
  split
  · rfl
  · split <;> rfl

namespace Heap.Lasting

open Operators (Fresh Pending)

variable {K : Heap → Prop} {h : Heap} {result : Value × Heap}

theorem scalar (lasting : Lasting K) (holds : K h) {v : Value} (scalar : v.isScalar = true) :
    K (h.newCell v).2 :=
  lasting.held holds (.plain scalar)

/-- Pending operators leave the latest operand as it is, or make a new one. -/
theorem applyWhile (lasting : Lasting K) {ready : BinaryOp → Bool} {pending pending' : Pending}
    {right : Value} (ends : Operators.applyWhile ready pending right h = .ok (pending', result))
    (holds : K h) : K result.2 ∧ (result = (right, h) ∨ ∃ k, K k ∧ Fresh k result) := by
  induction pending generalizing right h with
  | nil =>
    cases ends
    exact ⟨holds, .inl rfl⟩
  | cons e pending ih =>
    obtain ⟨left, op⟩ := e
    unfold Operators.applyWhile at ends
    split at ends
    · cases applied : Operators.binary op left right h with
      | error fault =>
        rw [applied] at ends
        cases ends
      | ok made =>
        rw [applied] at ends
        have fresh := Operators.binary_fresh applied
        obtain ⟨after, same | made⟩ := ih ends (lasting.made holds fresh)
        · exact ⟨after, .inr ⟨h, holds, same ▸ fresh⟩⟩
        · exact ⟨after, .inr made⟩
    · cases ends
      exact ⟨holds, .inl rfl⟩

/-- Where an operator is applied at all, the result is new. -/
theorem reduceFrom (lasting : Lasting K) {assoc : Associativity}
    {rest : List (Word BinaryOp × Value)} {pending : Pending} {v : Value}
    (ends : Operators.reduceFrom assoc rest pending v h = .ok result)
    (applied : pending ≠ [] ∨ rest ≠ []) (holds : K h) : ∃ k, K k ∧ Fresh k result := by
  induction rest generalizing pending v h with
  | nil =>
    cases pending with
    | nil => exact absurd rfl (applied.resolve_right (not_not_intro rfl))
    | cons e pending =>
      obtain ⟨left, op⟩ := e
      unfold Operators.reduceFrom Operators.applyWhile at ends
      rw [if_pos rfl] at ends
      cases first : Operators.binary op left v h with
      | error fault =>
        rw [first] at ends
        cases ends
      | ok made =>
        rw [first] at ends
        have fresh := Operators.binary_fresh first
        dsimp only at ends
        split at ends
        next others =>
          cases ends
          obtain ⟨-, same | made⟩ := lasting.applyWhile others (lasting.made holds fresh)
          · exact ⟨h, holds, same ▸ fresh⟩
          · exact made
        next => cases ends
  | cons e rest ih =>
    obtain ⟨op, next⟩ := e
    cases op with
    | other word unknown => cases ends
    | known op =>
      unfold Operators.reduceFrom at ends
      split at ends
      next others =>
        exact ih ends (.inl (List.cons_ne_nil _ _)) (lasting.applyWhile others holds).1
      next => cases ends

theorem assignTo (lasting : Lasting K) (span : Span) (target : CellRef) (op : Word AssignOp)
    (source : CellRef) {m : Machine} (holds : K m.heap) :
    K (reached (Eval.assignTo span target op (m.heap.get source) m)).heap := by
  have combined (op : BinaryOp) : K (reached (EStateM.bind
      (onHeap span (Operators.binary op (m.heap.get target) (m.heap.get source)))
      (setCell target) m)).heap := by
    unfold EStateM.bind onHeap
    cases ends : Operators.binary op (m.heap.get target) (m.heap.get source) m.heap with
    | ok result => exact lasting.written target holds (Operators.binary_fresh ends)
    | error fault => exact holds
  match op with
  | .known .set => exact lasting.assigned target source holds
  | .known .add => exact combined .add
  | .known .subtract => exact combined .subtract
  | .other _ _ => exact holds

/-- An act keeps what lasts, if the function that it may make does. -/
theorem act {α : Type} (lasting : Lasting K) (a : Act α) {m : Machine} (holds : K m.heap)
    (function : ∀ f, a.made? m = some f → K (m.heap.newCell (.func f)).2) :
    K (reached (a.run m)).heap := by
  cases a with
  | contents c => exact holds
  | lookup span name =>
    change K (reached (locate span (m.scopes.lookup name) m)).heap
    cases m.scopes.lookup name <;> exact holds
  | bind name c => exact holds
  | scalar v plain => exact lasting.scalar holds plain
  | array cells => exact lasting.held holds (.array cells)
  | tuple span fields =>
    change K (reached (EStateM.bind (Run.newTuple span fields) Run.newCell m)).heap
    unfold Run.newTuple
    cases made : Tuple.ofFields fields with
    | ok t => exact lasting.held holds (.tuple made)
    | error name => exact holds
  | function span params code => exact function _ rfl
  | declareFunction name span params code =>
    rw [Act.run_declareFunction]
    exact function _ rfl
  | operand span op test given v =>
    change K (reached (EStateM.bind (locate span (Operators.operand op test v)) Run.newCell m)).heap
    cases ends : Operators.operand op test v with
    | ok w => exact lasting.scalar holds (Operators.operand_scalar given ends)
    | error fault => exact holds
  | reduce assoc span first op second rest =>
    change K (reached (EStateM.bind (onHeap span _) Run.newCell m)).heap
    unfold EStateM.bind onHeap
    cases ends : Operators.reduce assoc first ((op, second) :: rest) m.heap with
    | ok result =>
      obtain ⟨k, before, fresh⟩ := lasting.reduceFrom ends (.inr (List.cons_ne_nil _ _)) holds
      exact lasting.held before fresh
    | error fault => exact holds
  | itemAt span position v =>
    cases v with
    | tuple t =>
      change K (reached (Eval.itemAt span position (.tuple t) m)).heap
      rw [Eval.itemAt_tuple]
      cases (m.heap.tuple t).get? position <;> exact holds
    | _ => exact holds
  | itemNamed span name v =>
    cases v with
    | tuple t =>
      change K (reached (Eval.itemNamed span name (.tuple t) m)).heap
      rw [Eval.itemNamed_tuple]
      cases (m.heap.tuple t).field? name <;> exact holds
    | _ => exact holds
  | itemUnder span keySpan key v =>
    cases v with
    | array a =>
      change K (reached (Eval.itemUnder span keySpan key (.array a) m)).heap
      rw [Eval.itemUnder_array]
      cases m.heap.get key with
      | int k => exact lasting.slot a k holds
      | _ => exact holds
    | _ => exact holds
  | assign span target op source => exact lasting.assignTo span target op source holds
  | print span v =>
    change K (reached (if (m.output.write (m.heap.render v)).failed then _ else _)).heap
    split <;> exact holds

theorem takeValue (lasting : Lasting K) (span : Span) (kind : ReadKind) {m : Machine}
    (holds : K m.heap) : K (reached (takeValue span kind m)).heap := by
  change K (reached (EStateM.bind (takeWord span _) (understand span kind) m)).heap
  have taken := takeWord_heap span (Vocabulary.spelling kind) m
  unfold EStateM.bind
  cases ended : takeWord span (Vocabulary.spelling kind) m with
  | error stop m' =>
    rw [ended] at taken
    exact taken ▸ holds
  | ok w m' =>
    rw [ended] at taken
    have holds : K m'.heap := taken ▸ holds
    cases kind with
    | int =>
      dsimp only [understand]
      cases Integer.read w with
      | ok n => exact lasting.scalar holds rfl
      | error failure => exact holds
    | real =>
      dsimp only [understand]
      cases Real.read? w with
      | some x => exact lasting.scalar holds rfl
      | none => exact holds
    | string => exact lasting.scalar holds rfl

end Heap.Lasting

end CellScript
