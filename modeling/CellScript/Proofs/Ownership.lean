import CellScript.Proofs.Discipline
import CellScript.Proofs.Ownership.Seeing
import CellScript.Proofs.Plan.Lasting

/-! Containers have one owner. Every act of an evaluation changes the heap by operations that never let
two cells hold the same array or tuple, so after an assignment the target and all other cells go
their own ways. -/
namespace CellScript

open Run

theorem Chronicle.assembled {cfg : Settings} {past : List Deed} {m : Machine}
    (chronicle : Chronicle cfg past m) : Deed.Throughout Heap.Assembled past m :=
  Heap.Assembled.lasting.throughout (fun _ assembled => assembled.newCell (.plain _ rfl)) .empty
    chronicle

/-- The heaps that can come about: those that operations of the heap lead to, and those that a machine
has before, while and after it runs programs. -/
inductive Heap.Arises : Heap → Prop where
  | assembled {h : Heap} (assembled : h.Assembled) : Arises h
  | machine {cfg : Settings} {past : List Deed} {m : Machine} (chronicle : Chronicle cfg past m) :
    Arises m.heap
  | deed {cfg : Settings} {past : List Deed} {m : Machine} {d : Deed}
      (chronicle : Chronicle cfg past m) (member : d ∈ past) : Arises d.machine.heap

theorem Heap.Arises.owned {h : Heap} (arises : h.Arises) : h.Owned := by
  cases arises with
  | assembled assembled => exact assembled.owned
  | machine chronicle => exact chronicle.assembled.2.owned
  | deed chronicle member => exact (chronicle.assembled.1 _ member).owned

/-- What an assignment writes into its target, with the heap before it is written. -/
inductive Assigned (h : Heap) (x : CellRef) (v : Value) : Word AssignOp → Value × Heap → Prop where
  | set : Assigned h x v (.known .set) (v, h)
  | add {result : Value × Heap} (ends : Operators.binary .add (h.get x) v h = .ok result) :
    Assigned h x v (.known .add) result
  | subtract {result : Value × Heap} (ends : Operators.binary .subtract (h.get x) v h = .ok result) :
    Assigned h x v (.known .subtract) result

namespace Assigned

variable {h : Heap} {x : CellRef} {v : Value} {op : Word AssignOp} {result : Value × Heap}

theorem of_assignTo {m m' : Machine} {span : Span}
    (ends : Eval.assignTo span x op v m = .ok () m') :
    ∃ result, Assigned m.heap x v op result ∧ m'.heap = result.2.set x result.1 := by
  have combined {op : BinaryOp} (ends : EStateM.bind
      (onHeap span (Operators.binary op (m.heap.get x) v)) (setCell x) m = .ok () m') :
      ∃ result, Operators.binary op (m.heap.get x) v m.heap = .ok result ∧
        m'.heap = result.2.set x result.1 := by
    unfold EStateM.bind onHeap at ends
    cases applied : Operators.binary op (m.heap.get x) v m.heap with
    | ok result =>
      rw [applied] at ends
      cases ends
      exact ⟨result, rfl, rfl⟩
    | error fault =>
      rw [applied] at ends
      cases ends
  match op with
  | .known .set =>
    cases ends
    exact ⟨_, .set, rfl⟩
  | .known .add =>
    obtain ⟨result, applied, written⟩ := combined ends
    exact ⟨result, .add applied, written⟩
  | .known .subtract =>
    obtain ⟨result, applied, written⟩ := combined ends
    exact ⟨result, .subtract applied, written⟩
  | .other _ _ => cases ends

/-- Up to the writing, cells hold what they held, with the same parts. -/
theorem others (assigned : Assigned h x v op result) (owned : h.Owned) :
    result.2.Owned ∧ result.2.cells = h.cells ∧
      ∀ {w : Value}, h.Knows w → result.2.partsOf w = h.partsOf w := by
  cases assigned with
  | set => exact ⟨owned, rfl, fun _ => rfl⟩
  | add ends | subtract ends =>
    have fresh := Operators.binary_fresh ends
    exact ⟨(fresh.owned owned).1, fresh.others⟩

end Assigned

/-- No array or tuple is what two different cells hold. After an assignment, keys that are created
through the target change nothing that is seen through another cell; seen through the target, what
was assigned is still there, with the same cells as items. -/
theorem containers_have_one_owner {m : Machine} (arises : m.heap.Arises) :
    (∀ c d, (m.heap.get c).isContainer = true → m.heap.get c = m.heap.get d → c = d) ∧
    ∀ (m' : Machine) (span : Span) (op : Word AssignOp) (x y : CellRef),
      x.index < m.heap.cells.size → Eval.assignTo span x op (m.heap.get y) m = .ok () m' →
      ∀ keys,
        (∀ c, c ≠ x → (m'.heap.demand x keys).get c = m.heap.get c ∧
          (m'.heap.demand x keys).parts? c = m.heap.parts? c) ∧
        (op = .known .set →
          Parts.Extend (m.heap.parts? y) ((m'.heap.demand x keys).parts? x)) ∧
        (op = .known .add →
          Parts.Extend (Parts.join (m.heap.parts? x) (m.heap.parts? y))
            ((m'.heap.demand x keys).parts? x)) := by
  have owned := arises.owned
  refine ⟨owned.owner, ?_⟩
  intro m' span op x y inside ends keys
  obtain ⟨⟨v, k⟩, assigned, written⟩ := Assigned.of_assignTo ends
  obtain ⟨ownedBefore, cells, parts⟩ := assigned.others owned
  obtain ⟨same, others, more⟩ := (ownedBefore.set x v).parts?_demand x keys
  rw [Heap.parts?_set (cells ▸ inside)] at more
  rw [written]
  refine ⟨fun c other => ?_, ?_, ?_⟩
  · have held : k.get c = m.heap.get c := by
      unfold Heap.get
      rw [cells]
    obtain ⟨sameSet, othersSet⟩ := ownedBefore.parts?_set_of_ne other v
    refine ⟨(same c).trans (sameSet.trans held), (others c other).trans (othersSet.trans ?_)⟩
    unfold Heap.parts?
    rw [held]
    exact parts (owned.known c)
  · rintro rfl
    cases assigned with
    | set => exact more
  · rintro rfl
    cases assigned with
    | add applied =>
      rw [Operators.partsOf_sum applied] at more
      exact more

namespace Example

/-- Declares an array of two numbers and an empty one. -/
def lists : Program :=
  ⟨.zero, .mk .zero [
    .declare .zero [121] (lone (.literal .zero (.array .zero
      [lone (.literal .zero (.integer .zero 7)), lone (.literal .zero (.integer .zero 8))]))),
    .declare .zero [120] (lone (.literal .zero (.array .zero [])))] false⟩

/-- The machine after the declarations. The cells of the numbers come first, those of the arrays
then. -/
def listed : Machine := (Eval.program ⟨.right, 8⟩ 60 lists .initial).2

/-- The machine after the first array was added to the second one. -/
def joined : Machine :=
  reached (Eval.assignTo .zero ⟨3⟩ (.known .add) (listed.heap.get ⟨2⟩) listed)

theorem listed_joins :
    Eval.assignTo .zero ⟨3⟩ (.known .add) (listed.heap.get ⟨2⟩) listed = .ok () joined := by
  rfl

end Example

open Example in
/-- Two arrays after one was added to the other one, whose key 9 is then asked for. -/
theorem containers_have_one_owner_joined :
    listed.heap.Arises ∧
      Eval.assignTo .zero ⟨3⟩ (.known .add) (listed.heap.get ⟨2⟩) listed = .ok () joined ∧
      (joined.heap.demand ⟨3⟩ [9]).parts? ⟨2⟩ = listed.heap.parts? ⟨2⟩ ∧
      Parts.Extend (Parts.join (listed.heap.parts? ⟨3⟩) (listed.heap.parts? ⟨2⟩))
        ((joined.heap.demand ⟨3⟩ [9]).parts? ⟨3⟩) := by
  have arises : listed.heap.Arises := .machine (Chronicle.initial.program 60 lists)
  have inside : (3 : Nat) < listed.heap.cells.size := by decide +kernel
  obtain ⟨others, -, more⟩ :=
    (containers_have_one_owner arises).2 joined .zero (.known .add) ⟨3⟩ ⟨2⟩ inside listed_joins [9]
  exact ⟨arises, listed_joins, (others ⟨2⟩ (by decide)).2, more rfl⟩

end CellScript
