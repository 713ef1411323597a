import CellScript.Proofs.Plan.Heaps
import CellScript.Proofs.Plan.Laws

/-! What lasts holds throughout. A property of heaps that every act keeps, the making of functions
included, holds before each deed of a chronicle and after all of them. -/
namespace CellScript

open Run

/-- Before each deed and after all of them, the heap has a property. -/
def Deed.Throughout (K : Heap → Prop) (past : List Deed) (m : Machine) : Prop :=
  (∀ d ∈ past, K d.machine.heap) ∧ K m.heap

variable {K : Heap → Prop} {past : List Deed} {m m' : Machine}

theorem Deed.Throughout.append {d : Deed} (before : Deed.Throughout K past m)
    (here : K d.machine.heap) (after : K m'.heap) : Deed.Throughout K (past ++ [d]) m' := by
  constructor
  · intro e member
    rcases List.mem_append.mp member with member | member
    · exact before.1 e member
    · rw [List.mem_singleton.mp member]
      exact here
  · exact after

namespace Heap.Lasting

theorem law (lasting : Lasting K) (function : ∀ {h} (f : Closure), K h → K (h.newCell (.func f)).2) :
    Plan.Law (Deed.Throughout K) where
  act {_ _ m} a before :=
    before.append before.2 (lasting.act a before.2 fun f _ => function f before.2)
  unread {past m m' _ _} before shown := by
    have same : m' = _ := reached_of_shown shown
    subst same
    exact before
  read {past m m' span} kind before shown := by
    have same : m' = _ := reached_of_shown shown
    subst same
    exact before.append before.2 (lasting.takeValue span kind before.2)
  enter _ _ _ before _ := before.append before.2 before.2
  opened _ before := before
  closed before _ := before
  counted _ before := before
  emptied before := ⟨before.1, lasting.scalar before.2 rfl⟩

theorem throughout (lasting : Lasting K)
    (function : ∀ {h} (f : Closure), K h → K (h.newCell (.func f)).2) (initial : K .empty)
    {cfg : Settings} (chronicle : Chronicle cfg past m) : Deed.Throughout K past m := by
  apply chronicle.keeps (lasting.law function)
  case initial => exact ⟨fun d member => absurd member List.not_mem_nil, initial⟩
  case connect => exact fun _ _ before => before
  case reset => exact fun before => before

/-- What lasts is kept by the evaluation of an expression. -/
theorem expr (lasting : Lasting K) (function : ∀ {h} (f : Closure), K h → K (h.newCell (.func f)).2)
    {cfg : Settings} {n : Nat} {e : Expr} {c : CellRef} (holds : K m.heap)
    (ended : Eval.expr cfg n e m = .ok c m') : K m'.heap := by
  have start : Deed.Throughout K [] m := ⟨List.forall_mem_nil _, holds⟩
  have after := (lasting.law function).run (Plan.expr cfg n e) start
  rw [(performed cfg n).expr, ended] at after
  exact after.2

end Heap.Lasting

end CellScript
