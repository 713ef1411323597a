import CellScript.Proofs.Cells
import CellScript.Proofs.Checking.Joining
import CellScript.Proofs.Parsing.Strings
import CellScript.Proofs.Plan.Keeping

/-! The strings that cells hold. A run that reads no string makes its strings from the literals of the
program, as they are written or joined, so none of them ends inside an escape sequence. -/
namespace CellScript

open Run

/-! ### Trees and values -/

/-- The node reads no string, and if it is one, its backslashes are in pairs. -/
def Subtree.Sealed (x : Subtree) : Prop :=
  x.StringPaired ∧ ∀ span, x ≠ .primary (.read span (.known .string))

/-- All nodes of a list and all below them are sealed. -/
def Sealed (xs : List Subtree) : Prop := ∀ x ∈ xs, x.Every Subtree.Sealed

namespace Sealed

variable {x : Subtree} {xs ys : List Subtree}

theorem parts (sealed : Sealed [x]) : Sealed x.parts :=
  fun _ part => (List.forall_mem_singleton.mp sealed).part part

theorem single (sealed : Sealed xs) (member : x ∈ xs) : Sealed [x] :=
  List.forall_mem_singleton.mpr (sealed x member)

theorem head (sealed : Sealed (x :: xs)) : Sealed [x] := sealed.single List.mem_cons_self

theorem tail (sealed : Sealed (x :: xs)) : Sealed xs := (List.forall_mem_cons.mp sealed).2

theorem left (sealed : Sealed (xs ++ ys)) : Sealed xs := (List.forall_mem_append.mp sealed).1

theorem right (sealed : Sealed (xs ++ ys)) : Sealed ys := (List.forall_mem_append.mp sealed).2

theorem mapped {α : Type} {f : α → Subtree} {l : List α} (sealed : Sealed (l.map f)) {a : α}
    (member : a ∈ l) : Sealed [f a] :=
  sealed.single (List.mem_map_of_mem member)

theorem flatMapped {α : Type} {f : α → List Subtree} {l : List α} (sealed : Sealed (l.flatMap f))
    {a : α} (member : a ∈ l) : Sealed (f a) :=
  fun x inside => sealed x (List.mem_flatMap.mpr ⟨a, member, inside⟩)

theorem here (sealed : Sealed [x]) : x.Sealed := (List.forall_mem_singleton.mp sealed).here

/-- A body is no string itself. -/
theorem body_iff {b : Body} : Sealed (Subtree.ofBody b) ↔ Sealed (b.statements.map .statement) := by
  cases b with
  | missing => exact Iff.rfl
  | mk span ss tokens =>
    refine ⟨parts, fun sealed => List.forall_mem_singleton.mpr (.of_parts ?_ sealed)⟩
    exact ⟨trivial, nofun⟩

end Sealed

def Code.Sealed : Code → Prop
  | .statements b => CellScript.Sealed (b.statements.map .statement)
  | .expression e => CellScript.Sealed (Subtree.ofExpr e)

/-- A string has its backslashes in pairs, and a function has sealed code. -/
def Value.Sealed : Value → Prop
  | .string s => s.Paired
  | .func f => f.code.Sealed
  | _ => True

theorem Value.Sealed.usual (v : Value) (code : ∀ f, v ≠ .func f) (string : ∀ t, v ≠ .string t) :
    v.Sealed := by
  cases v with
  | string t => exact absurd rfl (string t)
  | func f => exact absurd rfl (code f)
  | _ => trivial

/-! ### Operators -/

namespace Operators

variable {h : Heap} {result : Value × Heap}

theorem arithmetic_ne_string {op : Arithmetic} {n : Numbers} {s : Text} :
    arithmetic op n ≠ .ok (.string s) := by
  intro made
  cases n with
  | ints l r =>
    cases op with
    | divide =>
      unfold arithmetic at made
      dsimp only at made
      split at made <;> cases made
    | _ => cases made
  | reals l r => cases op <;> cases made

theorem calculated_ne_string {a : Arithmetic} {l r : Value} {fault : Fault} {s : Text} {k : Heap} :
    (match numbers? l r with
      | some n => (arithmetic a n).map (·, h)
      | none => .error fault) ≠ .ok (.string s, k) := by
  intro made
  split at made
  next n _ =>
    cases value : arithmetic a n with
    | ok v =>
      rw [value] at made
      cases made
      exact arithmetic_ne_string value
    | error fault =>
      rw [value] at made
      cases made
  next => cases made

/-- Only the sum of two strings is a string. -/
theorem binary_eq_string {op : BinaryOp} {l r : Value} {u : Text} {k : Heap}
    (made : binary op l r h = .ok (.string u, k)) :
    ∃ s t, l = .string s ∧ r = .string t ∧ u = s ++ t := by
  cases op with
  | add =>
    change (join? h l r).getD _ = _ at made
    unfold join? at made
    split at made
    next s t =>
      cases made
      exact ⟨s, t, rfl, rfl, rfl⟩
    next => cases made
    next =>
      dsimp only [Option.getD_some] at made
      split at made <;> cases made
    next => exact absurd made calculated_ne_string
  | subtract | multiply | divide => exact absurd made calculated_ne_string
  | less | lessEqual | greater | greaterEqual | equal | notEqual | and | or | xor =>
    unfold binary at made
    dsimp only at made
    split at made <;> cases made

/-- What an operator makes of sealed values is sealed; cells stay as they are. -/
theorem binary_sealed {op : BinaryOp} {l r : Value} (first : l.Sealed) (second : r.Sealed)
    (made : binary op l r h = .ok result) : result.1.Sealed ∧ result.2.cells = h.cells := by
  rcases binary_usual op l r h with usual | ⟨name, _, failed⟩
  · rw [made] at usual
    cases usual with
    | ok kept =>
      refine ⟨?_, kept.1⟩
      obtain ⟨v, k⟩ := result
      cases v with
      | string u =>
        obtain ⟨s, t, rfl, rfl, rfl⟩ := binary_eq_string made
        exact Text.Paired.append first second
      | func f => exact absurd rfl (kept.2 f)
      | _ => trivial
  · rw [made] at failed
    cases failed

theorem applyWhile_sealed {ready : BinaryOp → Bool} {pending pending' : Pending} {right : Value}
    (waiting : ∀ e ∈ pending, e.1.Sealed) (last : right.Sealed)
    (made : applyWhile ready pending right h = .ok (pending', result)) :
    (∀ e ∈ pending', e.1.Sealed) ∧ result.1.Sealed ∧ result.2.cells = h.cells := by
  induction pending generalizing right h with
  | nil =>
    cases made
    exact ⟨waiting, last, rfl⟩
  | cons e pending ih =>
    obtain ⟨left, op⟩ := e
    unfold applyWhile at made
    split at made
    · split at made
      next v k applied =>
        obtain ⟨first, others⟩ := List.forall_mem_cons.mp waiting
        obtain ⟨value, same⟩ := binary_sealed first last applied
        obtain ⟨waiting, value, same'⟩ := ih others value made
        exact ⟨waiting, value, same'.trans same⟩
      next => cases made
    · cases made
      exact ⟨waiting, last, rfl⟩

theorem reduceFrom_sealed {assoc : Associativity} {rest : List (Word BinaryOp × Value)}
    {pending : Pending} {v : Value} (waiting : ∀ e ∈ pending, e.1.Sealed) (last : v.Sealed)
    (others : ∀ e ∈ rest, e.2.Sealed) (made : reduceFrom assoc rest pending v h = .ok result) :
    result.1.Sealed ∧ result.2.cells = h.cells := by
  induction rest generalizing pending v h with
  | nil =>
    unfold reduceFrom at made
    split at made
    next applied =>
      cases made
      exact (applyWhile_sealed waiting last applied).2
    next => cases made
  | cons e rest ih =>
    obtain ⟨op, next⟩ := e
    cases op with
    | other word unknown => cases made
    | known op =>
      obtain ⟨first, others⟩ := List.forall_mem_cons.mp others
      unfold reduceFrom at made
      split at made
      next pending' w k applied =>
        obtain ⟨waiting, value, same⟩ := applyWhile_sealed waiting last applied
        obtain ⟨value', same'⟩ := ih (List.forall_mem_cons.mpr ⟨value, waiting⟩) first others made
        exact ⟨value', same'.trans same⟩
      next => cases made

/-- An operand that has an operator or a type test is no string. -/
theorem operand_sealed {op : Option (Word UnaryOp)} {test : Option (Word TypeName)}
    (given : (op.isNone && test.isNone) = false) {v w : Value} (made : operand op test v = .ok w) :
    w.Sealed := by
  unfold operand at made
  have unary_sealed {op : Word UnaryOp} {u : Value} (made : unary op u = .ok w) : w.Sealed := by
    unfold unary at made
    split at made <;> cases made <;> trivial
  cases op with
  | some op => cases test <;> exact unary_sealed made
  | none =>
    cases test with
    | some asked =>
      cases made
      trivial
    | none => cases given

end Operators

/-! ### Acts -/

namespace Act

/-- The values and the code that the act makes something of are sealed. -/
def Sealed : {α : Type} → Act α → Prop
  | _, .scalar v _ => v.Sealed
  | _, .function _ _ code | _, .declareFunction _ _ _ code => code.Sealed
  | _, .reduce _ _ first _ second rest => first.Sealed ∧ second.Sealed ∧ ∀ x ∈ rest, x.2.Sealed
  | _, .contents _ | _, .lookup .. | _, .bind .. | _, .array _ | _, .tuple .. | _, .operand .. | _, .itemAt ..
  | _, .itemNamed .. | _, .itemUnder .. | _, .assign .. | _, .print .. => True

end Act

namespace Heap

variable {h k : Heap} {m : Machine}

theorem All.of_cells {P : Value → Prop} (all : h.All P) (same : k.cells = h.cells) : k.All P := by
  unfold All
  rw [same]
  exact all

/-- An operation on the heap whose value goes into a cell. -/
theorem All.combined (all : m.heap.All Value.Sealed) {f : Heap → Except Fault (Value × Heap)}
    (fits : ∀ result, f m.heap = .ok result → result.1.Sealed ∧ result.2.cells = m.heap.cells)
    (span : Span) {β : Type} {store : Value → Run β}
    (stored : ∀ v (m : Machine), v.Sealed → m.heap.All Value.Sealed →
      (reached (store v m)).heap.All Value.Sealed) :
    (reached (EStateM.bind (onHeap span f) store m)).heap.All Value.Sealed := by
  unfold EStateM.bind onHeap
  cases made : f m.heap with
  | ok result =>
    obtain ⟨value, same⟩ := fits result made
    exact stored _ _ value (all.of_cells same)
  | error fault => exact all

end Heap

/-- An act on sealed values keeps all values in cells sealed. -/
theorem Act.keeps_sealed {α : Type} {a : Act α} (sealed : a.Sealed) {m : Machine}
    (all : m.heap.All Value.Sealed) : (reached (a.run m)).heap.All Value.Sealed := by
  have held (v : Value) (m : Machine) (value : v.Sealed) (all : m.heap.All Value.Sealed) :
      (reached (Run.newCell v m)).heap.All Value.Sealed := all.newCell value
  have written (c : CellRef) (v : Value) (m : Machine) (value : v.Sealed) (all : m.heap.All Value.Sealed) :
      (reached (setCell c v m)).heap.All Value.Sealed := all.set .usual value c
  cases a with
  | contents | bind => exact all
  | lookup span name =>
    change (reached (locate span (m.scopes.lookup name) m)).heap.All Value.Sealed
    cases m.scopes.lookup name <;> exact all
  | scalar v plain => exact all.newCell sealed
  | array cells => exact all.newCell (v := .array _) trivial
  | tuple span fields =>
    change (reached (EStateM.bind (Run.newTuple span fields) Run.newCell m)).heap.All Value.Sealed
    unfold Run.newTuple
    cases Tuple.ofFields fields with
    | ok t => exact Heap.All.newCell (h := (m.heap.newTuple t).2) all (v := .tuple _) trivial
    | error name => exact all
  | function span params code => exact all.newCell (v := .func _) sealed
  | declareFunction name span params code =>
    rw [Act.run_declareFunction]
    exact all.newCell (v := .func _) sealed
  | operand span op test given v =>
    change (reached (EStateM.bind (locate span (Operators.operand op test v)) Run.newCell m)).heap.All _
    cases made : Operators.operand op test v with
    | ok w => exact all.newCell (Operators.operand_sealed given made)
    | error fault => exact all
  | reduce assoc span first op second rest =>
    obtain ⟨start, next, others⟩ := sealed
    refine all.combined (fun result made => ?_) span held
    have later : ∀ x ∈ (op, second) :: rest, x.2.Sealed := List.forall_mem_cons.mpr ⟨next, others⟩
    exact Operators.reduceFrom_sealed (List.forall_mem_nil _) start later made
  | itemAt span position v =>
    cases v with
    | tuple t =>
      change (reached (Eval.itemAt span position (.tuple t) m)).heap.All Value.Sealed
      rw [Eval.itemAt_tuple]
      cases (m.heap.tuple t).get? position <;> exact all
    | _ => exact all
  | itemNamed span name v =>
    cases v with
    | tuple t =>
      change (reached (Eval.itemNamed span name (.tuple t) m)).heap.All Value.Sealed
      rw [Eval.itemNamed_tuple]
      cases (m.heap.tuple t).field? name <;> exact all
    | _ => exact all
  | itemUnder span keySpan key v =>
    cases v with
    | array a =>
      change (reached (Eval.itemUnder span keySpan key (.array a) m)).heap.All Value.Sealed
      rw [Eval.itemUnder_array]
      cases m.heap.get key with
      | int k => exact all.slot .usual a k
      | _ => exact all
    | _ => exact all
  | assign span target op source =>
    have value (c : CellRef) := all.get .usual c
    have sum (op : BinaryOp) := all.combined (fun result
      (made : Operators.binary op (m.heap.get target) (m.heap.get source) m.heap = .ok result) =>
        Operators.binary_sealed (value target) (value source) made) span (written target)
    match op with
    | .known .set => exact written target _ m (value source) all
    | .known .add => exact sum .add
    | .known .subtract => exact sum .subtract
    | .other _ _ => exact all
  | print span v =>
    change (reached (if (m.output.write (m.heap.render v)).failed then _ else _)).heap.All Value.Sealed
    split <;> exact all

end CellScript
