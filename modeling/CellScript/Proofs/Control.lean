import CellScript.Eval

/-! Sequences, loops, calls and programs taken apart. A step after another one goes on where that one
ended; a loop is one round and, unless the round leaves it, the rest of the loop; a call is its code
with one more call open and a way to leave it; a program is its statements and a way to conclude. -/
namespace CellScript

theorem run_bind_of_ok {α β : Type} {x : Run α} {m m' : Machine} {a : α} (first : x m = .ok a m')
    (f : α → Run β) : (x >>= f) m = f a m' := by
  change EStateM.bind x f m = _
  rw [EStateM.bind, first]

theorem run_bind_of_error {α β : Type} {x : Run α} {m m' : Machine} {stop : Stop}
    (first : x m = .error stop m') (f : α → Run β) : (x >>= f) m = .error stop m' := by
  change EStateM.bind x f m = _
  rw [EStateM.bind, first]

theorem run_bind_ok {α β : Type} {x : Run α} {f : α → Run β} {m m' : Machine} {b : β}
    (ended : (x >>= f) m = .ok b m') : ∃ a m₁, x m = .ok a m₁ ∧ f a m₁ = .ok b m' := by
  change EStateM.bind x f m = _ at ended
  unfold EStateM.bind at ended
  split at ended
  next a m₁ first => exact ⟨a, m₁, first, ended⟩
  next => cases ended

namespace Run

/-- One round of a loop and then the rest of it. -/
def round (body next : Run Unit) : Run Unit := fun m =>
  match body m with
  | .ok _ m | .error (.cont _) m => next m
  | .error (.brk _) m => .ok () m
  | .error stop m => .error stop m

theorem whileHolds_succ (condition : Run Bool) (body : Run Unit) (rounds : Nat) :
    whileHolds condition body (rounds + 1) = (do
      if ← condition then round body (whileHolds condition body rounds) else return ()) := by
  funext m
  rw [whileHolds]
  dsimp only
  change _ = EStateM.bind condition _ m
  unfold EStateM.bind
  cases condition m with
  | error stop m => rfl
  | ok holds m => cases holds <;> rfl

end Run

namespace Eval

open Run

/-- The result of a call whose code ended so. -/
def leave (site : Span) : EStateM.Result Stop Machine (Option CellRef) →
    EStateM.Result Stop Machine CellRef
  | .ok (some c) m => .ok c { m with calls := m.calls - 1 }
  | .ok none m => newCell .empty { m with calls := m.calls - 1 }
  | .error (.ret c) m => .ok c { m with calls := m.calls - 1 }
  | .error (.fault e) m => .error (.fault (e.leaveCall site)) { m with calls := m.calls - 1 }
  | .error (.brk span) m => fail span .strayBreak { m with calls := m.calls - 1 }
  | .error (.cont span) m => fail span .strayContinue { m with calls := m.calls - 1 }
  | .error .exhausted m => .error .exhausted { m with calls := m.calls - 1 }

theorem asCall_apply (site : Span) (x : Run (Option CellRef)) (m : Machine) :
    asCall site x m = leave site (x { m with calls := m.calls + 1 }) := by
  change EStateM.bind (attempt x) _ { m with calls := m.calls + 1 } = _
  unfold EStateM.bind attempt
  cases x { m with calls := m.calls + 1 } with
  | ok result m => cases result <;> rfl
  | error stop m => cases stop <;> rfl

theorem knowItself_of_func {m : Machine} {d : CellRef} {f : Closure}
    (found : m.heap.get d = .func f) (name : Text) :
    knowItself name d m = .ok () { m with
      heap := m.heap.put d (.func { f with captured := f.captured.set name d }) } := by
  unfold knowItself
  change EStateM.bind (contents d) _ m = _
  unfold EStateM.bind contents
  dsimp only
  rw [found]
  rfl

theorem itemAt_tuple (span : Span) (position : Int64) (t : TupleRef) (m : Machine) :
    itemAt span position (.tuple t) m = (match (m.heap.tuple t).get? position with
      | some c => pure c
      | none => fail span (.noPosition position (m.heap.tuple t).size) : Run CellRef) m := rfl

theorem itemNamed_tuple (span : Span) (name : Text) (t : TupleRef) (m : Machine) :
    itemNamed span name (.tuple t) m = (match (m.heap.tuple t).field? name with
      | some c => pure c
      | none => fail span (.noField name) : Run CellRef) m := rfl

theorem itemUnder_array (span keySpan : Span) (key : CellRef) (a : ArrayRef) (m : Machine) :
    itemUnder span keySpan key (.array a) m = (match m.heap.get key with
      | .int k => slot a k
      | w => fail keySpan (.subscriptNotInteger w.type) : Run CellRef) m := rfl

/-- How the run of a program ends whose statements ended so. -/
def conclude : EStateM.Result Stop Machine Unit → Outcome × Machine
  | .ok _ m => finish .done m
  | .error (.ret _) m => finish .done m
  | .error stop m => finish (outcome stop) { m with scopes := m.scopes.reset, calls := 0 }

theorem program_eq_conclude (cfg : Settings) (fuel : Nat) (p : Program) (m : Machine) :
    program cfg fuel p m = conclude (p.body.statements.forM (statement cfg fuel) m) := rfl

end Eval

end CellScript
