import CellScript.Proofs.Checking.Joining
import CellScript.Proofs.Tree.Formed

/-! Steps over formed code. If every function in a cell has formed code, the steps that an
evaluation is made of keep it so, and they fail for no fault of the tree's shape. -/
namespace CellScript

open Run

namespace Formed

variable (words : Bool)

def code : Code → Bool
  | .statements b => body words b
  | .expression e => expr words e

def value : Value → Bool
  | .func f => code words f.code
  | _ => true

end Formed

/-- A fault that says that a required part of the tree is missing, or that a frame is gone. -/
def Fault.ofShape : Fault → Bool
  | .missingExpression | .missingLiteral | .emptyExpression | .operandCount .. | .unknownPrimary _
  | .noOpenScope _ => true
  | _ => false

/-- A fault that formed code may run into. If its words are known, of the internal faults only a
failed output is left. -/
def Fault.Fits (words : Bool) (fault : Fault) : Prop :=
  fault.ofShape = false ∧ (words = true → fault.kind = .internal → fault = .writeFailed)

variable {words : Bool}

theorem Fault.Fits.of_kind {fault : Fault} (kind : fault.kind ≠ .internal) : fault.Fits words := by
  refine ⟨?_, fun _ internal => absurd internal kind⟩
  cases fault with
  | missingExpression | missingLiteral | emptyExpression | operandCount | unknownPrimary
  | noOpenScope => exact absurd rfl kind
  | _ => rfl

theorem Fault.Fits.writeFailed : Fault.Fits words .writeFailed := ⟨rfl, fun _ _ => rfl⟩

/-- What is said about an unknown word fits where words may be unknown. -/
theorem Fault.Fits.of_word {α : Type} [Vocabulary α] {fault : Fault} {w : Text}
    {unknown : Vocabulary.ofText? w = none} (shape : fault.ofShape = false)
    (formed : Formed.word words (.other w unknown : Word α)) : fault.Fits words := by
  refine ⟨shape, ?_⟩
  rintro rfl
  cases formed

theorem Formed.value_of_ne (v : Value) (other : ∀ f, v ≠ .func f) : Formed.value words v := by
  cases v with
  | func f => exact absurd rfl (other f)
  | _ => rfl

/-! ### Operators -/

namespace Operators

variable {h : Heap} {l r v : Value} {fault : Fault}

theorem binary_fault {op : BinaryOp} (failed : binary op l r h = .error fault) :
    fault.kind ≠ .internal := by
  unfold binary arithmetic at failed
  -- every branch gives a value, or a fault that is written there
  cases op <;> simp only [join?] at failed
  all_goals
    repeat' split at failed
    all_goals
      cases failed
      try rintro ⟨⟩

theorem applyWhile_fault {ready : BinaryOp → Bool} {pending : Pending}
    (failed : applyWhile ready pending v h = .error fault) : fault.kind ≠ .internal := by
  induction pending generalizing v h with
  | nil => cases failed
  | cons e pending ih =>
    obtain ⟨left, op⟩ := e
    unfold applyWhile at failed
    split at failed
    · cases ended : binary op left v h with
      | ok result =>
        rw [ended] at failed
        exact ih failed
      | error fault' =>
        rw [ended] at failed
        cases failed
        exact binary_fault ended
    · cases failed

theorem reduceFrom_fault {assoc : Associativity} {rest : List (Word BinaryOp × Value)}
    {pending : Pending} (formed : ∀ e ∈ rest, Formed.word words e.1)
    (failed : reduceFrom assoc rest pending v h = .error fault) : fault.Fits words := by
  induction rest generalizing pending v h with
  | nil =>
    unfold reduceFrom at failed
    cases ended : applyWhile (fun _ => true) pending v h with
    | ok result =>
      rw [ended] at failed
      cases failed
    | error fault' =>
      rw [ended] at failed
      cases failed
      exact .of_kind (applyWhile_fault ended)
  | cons e rest ih =>
    obtain ⟨op, next⟩ := e
    have here := formed _ List.mem_cons_self
    unfold reduceFrom at failed
    cases op with
    | other w unknown =>
      cases failed
      exact .of_word rfl here
    | known op =>
      dsimp only at failed
      cases ended : applyWhile (fun p => yields assoc p op) pending v h with
      | ok result =>
        rw [ended] at failed
        exact ih (fun e member => formed e (List.mem_cons_of_mem _ member)) failed
      | error fault' =>
        rw [ended] at failed
        cases failed
        exact .of_kind (applyWhile_fault ended)

theorem operand_fault {op : Option (Word UnaryOp)} {test : Option (Word TypeName)}
    (failed : operand op test v = .error fault) : fault.kind ≠ .internal := by
  unfold operand unary at failed
  cases op with
  | none => cases failed
  | some op =>
    dsimp only at failed
    split at failed <;> cases failed
    nofun

end Operators

/-- A result with faults that are known otherwise. -/
theorem Gives.with_faults {α : Type} {good : α → Prop} {bad bad' : Fault → Prop}
    {r : Except Fault α} (gives : Gives good bad r) (faults : ∀ fault, r = .error fault → bad' fault) :
    Gives good bad' r := by
  cases gives with
  | ok value => exact .ok value
  | error _ => exact .error (faults _ rfl)

/-! ### Steps -/

/-- How a step over formed code ends: the functions in the cells have formed code still, a value has
`V`, and a fault fits. -/
inductive Remains {α : Type} (words : Bool) (V : α → Prop) : EStateM.Result Stop Machine α → Prop where
  | ok {a : α} {m : Machine} (value : V a) (heap : m.heap.All (Formed.value words ·)) :
    Remains words V (.ok a m)
  | error {stop : Stop} {m : Machine} (fits : ∀ e, stop = .fault e → e.fault.Fits words)
      (heap : m.heap.All (Formed.value words ·)) :
    Remains words V (.error stop m)

/-- A step that keeps code formed. -/
def Run.Forms {α : Type} (words : Bool) (V : α → Prop) (x : Run α) : Prop :=
  ∀ m, m.heap.All (Formed.value words ·) → Remains words V (x m)

/-- A step whose value may be anything. -/
abbrev Run.Sturdy {α : Type} (words : Bool) (x : Run α) : Prop := x.Forms words fun _ => True

namespace Run.Forms

variable {α β : Type} {V : α → Prop} {W : β → Prop}

theorem pure {a : α} (value : V a) : Forms words V (Pure.pure a) := fun _ heap => .ok value heap

theorem throw {stop : Stop} (other : ∀ e, stop ≠ .fault e) : Forms words V (throw stop : Run α) :=
  fun _ heap => .error (fun e same => absurd same (other e)) heap

theorem fail {fault : Fault} (fits : fault.Fits words) (span : Span) :
    Forms words V (fail span fault) := by
  refine fun m heap => .error ?_ heap
  rintro e ⟨⟩
  exact fits

/-- A fault that is not internal. -/
theorem refuse {fault : Fault} (span : Span) (kind : fault.kind ≠ .internal := by rintro ⟨⟩) :
    Forms words V (Run.fail span fault) := fail (.of_kind kind) span

theorem bind {x : Run α} {f : α → Run β} (first : Forms words V x)
    (rest : ∀ a, V a → Forms words W (f a)) : Forms words W (x >>= f) := by
  intro m heap
  have here := first m heap
  change Remains words W (EStateM.bind x f m)
  unfold EStateM.bind
  generalize x m = r at here
  cases here with
  | ok value heap => exact rest _ value _ heap
  | error fits heap => exact .error fits heap

theorem mapM {g : α → Run β} {xs : List α} (each : ∀ a ∈ xs, Forms words W (g a)) :
    Forms words (fun bs => ∀ b ∈ bs, W b) (xs.mapM g) := by
  rw [← List.mapM'_eq_mapM]
  induction xs with
  | nil => exact pure fun _ member => absurd member List.not_mem_nil
  | cons a xs ih =>
    refine bind (each a List.mem_cons_self) fun b first => ?_
    refine bind (ih fun a member => each a (List.mem_cons_of_mem _ member)) fun bs rest => ?_
    exact pure (List.forall_mem_cons.mpr ⟨first, rest⟩)

theorem forM {g : α → Run Unit} {xs : List α} (each : ∀ a ∈ xs, Sturdy words (g a)) :
    Sturdy words (xs.forM g) := by
  induction xs with
  | nil => exact pure trivial
  | cons a xs ih =>
    refine bind (each a List.mem_cons_self) fun _ _ => ?_
    exact ih fun a member => each a (List.mem_cons_of_mem _ member)

theorem foldlM {g : β → α → Run β} {xs : List α} (each : ∀ a ∈ xs, ∀ b, Sturdy words (g b a))
    (b : β) : Sturdy words (xs.foldlM g b) := by
  induction xs generalizing b with
  | nil => exact pure trivial
  | cons a xs ih =>
    refine bind (each a List.mem_cons_self b) fun b _ => ?_
    exact ih (fun a member => each a (List.mem_cons_of_mem _ member)) b

theorem get : Sturdy words (get : Run Machine) := fun _ heap => .ok trivial heap

theorem locate {r : Except Fault α} (gives : Gives V (Fault.Fits words) r) (span : Span) :
    Forms words V (locate span r) := by
  cases gives with
  | ok value => exact pure value
  | error fits => exact fail fits span

theorem onHeap {f : Heap → Except Fault (Value × Heap)}
    (gives : ∀ h, Gives (fun r => Formed.value words r.1 ∧ r.2.cells = h.cells)
      (Fault.Fits words) (f h)) (span : Span) :
    Forms words (Formed.value words ·) (onHeap span f) := by
  intro m heap
  have here := gives m.heap
  unfold Run.onHeap
  generalize f m.heap = r at here
  cases here with
  | @ok r kept =>
    refine .ok kept.1 ?_
    unfold Heap.All
    rw [kept.2]
    exact heap
  | error fits =>
    refine .error ?_ heap
    rintro e ⟨⟩
    exact fits

theorem contents (c : CellRef) : Forms words (Formed.value words ·) (contents c) :=
  fun _ heap => .ok (heap.get (fun v code _ => Formed.value_of_ne v code) c) heap

theorem newCell {v : Value} (formed : Formed.value words v) : Sturdy words (newCell v) :=
  fun _ heap => .ok trivial (heap.newCell formed)

theorem setCell {v : Value} (formed : Formed.value words v) (c : CellRef) :
    Sturdy words (setCell c v) :=
  fun _ heap => .ok trivial (heap.set (fun v code _ => Formed.value_of_ne v code) formed c)

theorem newArray (cs : List CellRef) : Forms words (Formed.value words ·) (newArray cs) :=
  fun _ heap => .ok rfl heap

theorem newTuple (span : Span) (fields : List (Text × CellRef)) :
    Forms words (Formed.value words ·) (newTuple span fields) := by
  unfold Run.newTuple
  cases Tuple.ofFields fields with
  | ok t => exact fun _ heap => .ok rfl heap
  | error name => exact refuse span

theorem slot (a : ArrayRef) (key : Int64) : Sturdy words (slot a key) :=
  fun _ heap => .ok trivial (heap.slot (fun v code _ => Formed.value_of_ne v code) a key)

theorem bindName (name : Text) (c : CellRef) : Sturdy words (bindName name c) :=
  fun _ heap => .ok trivial heap

theorem lookup (span : Span) (name : Text) : Sturdy words (lookup span name) := by
  refine bind get fun m _ => locate ?_ span
  unfold Scopes.lookup
  split
  · exact .ok trivial
  · exact .error (.of_kind nofun)

theorem print (span : Span) (v : Value) : Sturdy words (print span v) := by
  intro m heap
  unfold Run.print
  dsimp only
  split
  · refine .error ?_ heap
    rintro e ⟨⟩
    exact .writeFailed
  · exact .ok trivial heap

theorem readWord (span : Span) (what : Text) : Sturdy words (readWord span what) := by
  have failed {fault : Fault} {m : Machine} (kind : fault.kind ≠ .internal)
      (heap : m.heap.All (Formed.value words ·)) : Remains words (fun _ : Text => True)
        (.error (.fault ⟨fault, span, []⟩) m) := by
    refine .error ?_ heap
    rintro e ⟨⟩
    exact .of_kind kind
  intro m heap
  unfold Run.readWord
  dsimp only
  split
  · exact failed (by rintro ⟨⟩) heap
  · obtain ⟨result, input⟩ := m.input.read
    cases result with
    | ok w => exact .ok trivial heap
    | error stop =>
      dsimp only
      split
      · exact failed (by rintro ⟨⟩) heap
      · exact failed (by rintro ⟨⟩) heap

theorem readValue (span : Span) (kind : ReadKind) :
    Forms words (Formed.value words ·) (readValue span (.known kind)) := by
  refine bind (readWord _ _) fun w _ => ?_
  cases kind with
  | int =>
    dsimp only
    split
    · exact pure rfl
    · exact refuse span
  | real =>
    dsimp only
    split
    · exact pure rfl
    · exact refuse span
  | string => exact pure rfl

theorem itemAt (span : Span) (position : Int64) (v : Value) :
    Sturdy words (Eval.itemAt span position v) := by
  cases v with
  | tuple t =>
    refine bind get fun m _ => ?_
    dsimp only
    split
    · exact pure trivial
    · exact refuse span
  | _ => exact refuse span

theorem itemNamed (span : Span) (name : Text) (v : Value) :
    Sturdy words (Eval.itemNamed span name v) := by
  cases v with
  | tuple t =>
    refine bind get fun m _ => ?_
    split
    · exact pure trivial
    · exact refuse span
  | _ => exact refuse span

theorem itemUnder (span keySpan : Span) (key : CellRef) (v : Value) :
    Sturdy words (Eval.itemUnder span keySpan key v) := by
  cases v with
  | array a =>
    refine bind (contents key) fun w _ => ?_
    cases w with
    | int n => exact slot a n
    | _ => exact refuse keySpan
  | _ => exact refuse span

theorem binary (op : BinaryOp) (l r : Value) (span : Span) :
    Forms words (Formed.value words ·) (Run.onHeap span (Operators.binary op l r)) := by
  refine onHeap (fun h => ?_) span
  cases ended : Operators.binary op l r h with
  | error fault => exact .error (.of_kind (Operators.binary_fault ended))
  | ok result =>
    rcases Operators.binary_usual op l r h with usual | ⟨name, _, failed⟩
    · rw [ended] at usual
      cases usual with
      | ok kept => exact .ok ⟨Formed.value_of_ne _ kept.2, kept.1⟩
    · rw [ended] at failed
      cases failed

theorem reduce {assoc : Associativity} {first : Value} {ops : List (Word BinaryOp)}
    {rest : List Value} (known : ops.all (Formed.word words)) (fits : Formed.value words first)
    (others : ∀ v ∈ rest, Formed.value words v) (span : Span) :
    Forms words (Formed.value words ·)
      (Run.onHeap span (Operators.reduce assoc first (ops.zip rest))) := by
  refine onHeap (fun h => ?_) span
  refine (Operators.reduce_kept Formed.value_of_ne assoc first ops rest h fits others).with_faults ?_
  intro fault failed
  refine Operators.reduceFrom_fault (fun e member => ?_) failed
  exact List.all_eq_true.mp known _ (List.of_mem_zip member).1

theorem operand {op : Option (Word UnaryOp)} {test : Option (Word TypeName)} {v : Value}
    (fits : Formed.value words v) (span : Span) :
    Forms words (Formed.value words ·) (Run.locate span (Operators.operand op test v)) := by
  refine locate ?_ span
  refine (Operators.operand_kept Formed.value_of_ne op test v fits).with_faults ?_
  exact fun fault failed => .of_kind (Operators.operand_fault failed)

theorem assignTo {op : Word AssignOp} {v : Value} (known : Formed.word words op)
    (fits : Formed.value words v) (span : Span) (target : CellRef) :
    Sturdy words (Eval.assignTo span target op v) := by
  cases op with
  | other w unknown => exact fail (.of_word rfl known) span
  | known op =>
    cases op with
    | set => exact setCell fits target
    | add | subtract =>
      refine bind (contents target) fun old _ => bind (binary _ old v span) fun new fresh => ?_
      exact setCell fresh target

theorem closure {code : Code} (formed : Formed.code words code) (span : Span) (params : List Text) :
    Sturdy words (Eval.closure span params code) :=
  bind get fun _ _ => newCell formed

theorem knowItself (name : Text) (c : CellRef) : Sturdy words (Eval.knowItself name c) := by
  refine bind (contents c) fun v formed => ?_
  cases v with
  | func f =>
    intro m heap
    have kept : Formed.value words (.func { f with captured := f.captured.set name c }) := formed
    exact .ok trivial (heap.put kept c)
  | _ => exact pure trivial

/-- The frame of a step that only adds bindings to it can be closed. -/
theorem inFrame {x : Run α} (inside : Forms words V x)
    (grows : ∀ m : Machine, m.scopes.Grown (reached (x m)).scopes) (owner : Owner)
    (bindings : Bindings) : Forms words V (inFrame owner bindings x) := by
  intro m heap
  have closed := (grows { m with scopes := m.scopes.openWith (some owner) bindings }).close_top.1
  have here := inside { m with scopes := m.scopes.openWith (some owner) bindings } heap
  unfold Run.inFrame
  generalize x { m with scopes := m.scopes.openWith (some owner) bindings } = r at closed here
  cases here with
  | ok value heap =>
    simp only [reached] at closed ⊢
    rw [closed]
    exact .ok value heap
  | error fits heap =>
    simp only [reached] at closed ⊢
    rw [closed]
    exact .error fits heap

theorem asCall {x : Run (Option CellRef)} (inside : Sturdy words x) (site : Span) :
    Sturdy words (Eval.asCall site x) := by
  have failed {fault : Fault} {span : Span} {m : Machine} (kind : fault.kind ≠ .internal)
      (heap : m.heap.All (Formed.value words ·)) :
      Remains words (fun _ : CellRef => True) (Run.fail span fault m) := refuse span kind m heap
  intro m heap
  have here := inside { m with calls := m.calls + 1 } heap
  rw [Eval.asCall_apply]
  generalize x { m with calls := m.calls + 1 } = r at here
  cases here with
  | @ok result _ _ heap =>
    cases result with
    | some c => exact .ok trivial heap
    | none => exact .ok trivial (heap.newCell (v := .empty) rfl)
  | @error stop _ fits heap =>
    cases stop with
    | ret c => exact .ok trivial heap
    | brk _ | cont _ => exact failed (by rintro ⟨⟩) heap
    | exhausted => exact .error (fun e same => Stop.noConfusion same) heap
    | fault e =>
      refine .error ?_ heap
      rintro e' ⟨⟩
      rw [RuntimeError.leaveCall_fault]
      exact fits e rfl

theorem forCount {body : Int64 → Run Unit} (each : ∀ v, Sturdy words (body v)) (count : Nat)
    (v : Int64) : Sturdy words (forCount body count v) := by
  induction count generalizing v with
  | zero => exact fun _ heap => .ok trivial heap
  | succ count ih =>
    intro m heap
    have here := each v m heap
    unfold Run.forCount
    generalize body v m = r at here
    cases here with
    | ok _ heap => exact ih (v + 1) _ heap
    | @error stop _ fits heap =>
      cases stop with
      | cont _ => exact ih (v + 1) _ heap
      | brk _ => exact .ok trivial heap
      | ret _ | fault _ | exhausted => exact .error fits heap

theorem whileHolds {condition : Run Bool} {body : Run Unit} (holds : Sturdy words condition)
    (inside : Sturdy words body) (rounds : Nat) :
    Sturdy words (whileHolds condition body rounds) := by
  induction rounds with
  | zero => exact fun _ heap => .error (fun e same => Stop.noConfusion same) heap
  | succ rounds ih =>
    intro m heap
    have asked := holds m heap
    unfold Run.whileHolds
    generalize condition m = r at asked
    cases asked with
    | error fits heap => exact .error fits heap
    | @ok goes m _ heap =>
      cases goes with
      | false => exact .ok trivial heap
      | true =>
        have here := inside m heap
        dsimp only
        generalize body m = r at here
        cases here with
        | ok _ heap => exact ih _ heap
        | @error stop _ fits heap =>
          cases stop with
          | cont _ => exact ih _ heap
          | brk _ => exact .ok trivial heap
          | ret _ | fault _ | exhausted => exact .error fits heap

end Run.Forms

end CellScript
