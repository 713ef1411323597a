import CellScript.Proofs.Checking.History

/-! Checking of control flow and of tuple keys is sound. In a program in which the checks find no
error, control never leaves a loop that is not there, and a key is given twice only where tuples are
joined. -/
namespace CellScript

open Check

/-- A checked program never tries to leave a loop from outside, with whatever functions of checked
programs it starts. A key is found given twice only by a sum or by an assignment that adds, and then
because both operands are tuples that have it. -/
theorem loops_are_left_from_inside {m : Machine}
    (stored : ∀ f, .func f ∈ m.heap.cells → ∃ o : Origin, o.Clean ∧ o.Wrote f)
    {seeds : List Text} {p : Program} (clean : Clean (Check.program seeds p)) (cfg : Settings)
    (fuel : Nat) :
    (∀ e m', Eval.program cfg fuel p m = (.failed e, m') →
      e.fault.kind ≠ .controlFlowEscape ∧
        ∃ moment ∈ (Trace.program cfg fuel p).moments m, moment.Raises e.fault e.span) ∧
    (∀ moment ∈ (Trace.program cfg fuel p).moments m, ∀ node e m',
      moment.event = .raised node e m' →
        e.fault.kind ≠ .controlFlowEscape ∧ (e.fault.kind = .keyConflict → node.Joins)) ∧
    ∀ op l r h name, Operators.binary op l r h = .error (.duplicateKey name) →
      Operators.Clash h op l r name := by
  let k : Knowledge := ⟨Origin.Clean, fun _ clean => clean, False⟩
  have ready : k.Ready [] m := by
    refine ⟨fun v member f same => ?_, fun tracks => tracks.elim, fun tracks => tracks.elim⟩
    subst same
    obtain ⟨o, origin, home, c, self, visit⟩ := stored f member
    exact ⟨o, home, c, self, origin, visit, fun tracks => tracks.elim⟩
  have origin : k.known ⟨seeds, p⟩ := clean
  have safe := Knowledge.program_safe origin cfg fuel
  have raised : ∀ moment ∈ (Trace.program cfg fuel p).moments m, ∀ node e m',
      moment.event = .raised node e m' →
        e.fault.kind ≠ .controlFlowEscape ∧ (e.fault.kind = .keyConflict → node.Joins) := by
    intro moment member node e m' event
    rcases safe.moments m ready moment member node e m' event with
      (unchecked | ⟨joins, name, duplicate⟩) | ⟨name, undefined, -⟩
    · have other := Fault.kind_of_unchecked unchecked
      exact ⟨other.1, fun conflict => absurd conflict other.2⟩
    · rw [duplicate]
      exact ⟨FaultKind.noConfusion, fun _ => joins⟩
    · rw [undefined]
      exact ⟨FaultKind.noConfusion, fun same => FaultKind.noConfusion same⟩
  refine ⟨fun e m' failed => ?_, raised, fun op l r h name => Operators.binary_duplicateKey.mp⟩
  obtain ⟨moment, member, node, e₁, m₁, event, fault, span⟩ := ready.raised origin failed
  have allowed := (raised moment member node e₁ m₁ event).1
  rw [fault] at allowed
  exact ⟨allowed, moment, member, node, e₁, m₁, event, fault, span⟩

namespace Example

/-- A loop that is left at once, and a sum of two tuples that share a name. -/
def joining : Program :=
  ⟨.zero, .mk .zero [
    .whileLoop .zero (lone (.literal .zero (.boolean .zero true))) (.mk .zero [.brk .zero] false),
    .print .zero [.mk .zero [single, single] [.known .add]]] false⟩
where
  single : Operand := .mk .zero none (.literal .zero (.tuple .zero
    [.mk .zero [97] (lone (.literal .zero (.integer .zero 1)))])) none

def keyTwice : Eval.Outcome → Bool
  | .failed e => e.fault.kind == .keyConflict
  | _ => false

theorem exists_of_keyTwice {r : Eval.Outcome × Machine} (twice : keyTwice r.1 = true) :
    ∃ e m', r = (.failed e, m') ∧ e.fault.kind = .keyConflict := by
  obtain ⟨o, m'⟩ := r
  cases o with
  | failed e => exact ⟨e, m', rfl, beq_iff_eq.mp twice⟩
  | done | outputRefused | exhausted => cases twice

theorem joining_fails : keyTwice (Eval.program ⟨.right, 8⟩ 60 joining unfinished).1 = true := by
  decide +kernel

end Example

open Example in
/-- The loop is left in place, and the two tuples are joined by a sum. -/
theorem loops_are_left_from_inside_joining :
    (∀ f, .func f ∈ unfinished.heap.cells → ∃ o : Origin, o.Clean ∧ o.Wrote f) ∧
      Clean (Check.program [] joining) ∧
      ∃ moment ∈ (Trace.program ⟨.right, 8⟩ 60 joining).moments unfinished, ∃ node e m',
        moment.event = .raised node e m' ∧ e.fault.kind = .keyConflict ∧ node.Joins := by
  have stored : ∀ f, .func f ∈ unfinished.heap.cells → ∃ o : Origin, o.Clean ∧ o.Wrote f := by
    intro f member
    obtain ⟨o, -, written⟩ := unfinished_past.stored member
    exact ⟨o, written⟩
  have clean : Clean (Check.program [] joining) := by decide
  refine ⟨stored, clean, ?_⟩
  have sound := loops_are_left_from_inside stored clean ⟨.right, 8⟩ 60
  obtain ⟨e, m', failed, twice⟩ := exists_of_keyTwice joining_fails
  obtain ⟨-, moment, member, node, e₁, m₁, event, fault, -⟩ := sound.1 e m' failed
  rw [← fault] at twice
  have joins := (sound.2.1 moment member node e₁ m₁ event).2 twice
  exact ⟨moment, member, node, e₁, m₁, event, twice, joins⟩

end CellScript
